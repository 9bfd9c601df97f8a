import Mathlib.Data.List.Basic
import Mathlib.Data.List.Nodup
import Mathlib.Data.List.Perm.Subperm
import Mathlib.Data.Set.Function
import Mathlib.Order.Interval.Set.Basic

/-!
Owns desks: a fixed number of slots for tickets that are numbered as they are
issued, are called back by number, and are all dropped when the desk is cleared.
Slots are reused, so what a slot holds says nothing about the past; `Tracks` ties
the slots to the history of the desk.
-/

namespace EpicMiner.Library

/-- What happened at a desk that hands out tickets `ι` for payloads `α`. -/
inductive DeskEvent (ι α : Type*) where
  | cleared
  | issued (ticket : ι) (payload : α)
  | called (ticket : ι)

/-- The slots of a desk and its history, latest event first. -/
structure Desk (ι α : Type*) where
  slots : List (Option (ι × α))
  history : List (DeskEvent ι α)

namespace Desk

variable {ι α β : Type*}

/-! ## Slots -/

/-- The first free slot takes the ticket. -/
def place (ticket : ι) (payload : α) : List (Option (ι × α)) → Option (List (Option (ι × α)))
  | [] => none
  | none :: rest => some (some (ticket, payload) :: rest)
  | some held :: rest => (place ticket payload rest).map (some held :: ·)

/-- The first slot with the ticket is freed; the answer is its payload. -/
def take [DecidableEq ι] (ticket : ι) :
    List (Option (ι × α)) → Option α × List (Option (ι × α))
  | [] => (none, [])
  | none :: rest => ((take ticket rest).1, none :: (take ticket rest).2)
  | some held :: rest =>
      if held.1 = ticket then (some held.2, none :: rest)
      else ((take ticket rest).1, some held :: (take ticket rest).2)

def tickets (slots : List (Option (ι × α))) : List ι :=
  slots.filterMap (Option.map Prod.fst)

@[simp] theorem tickets_append (left right : List (Option (ι × α))) :
    tickets (left ++ right) = tickets left ++ tickets right :=
  List.filterMap_append

@[simp] theorem tickets_free (rest : List (Option (ι × α))) :
    tickets (none :: rest) = tickets rest :=
  rfl

@[simp] theorem tickets_held (held : ι × α) (rest : List (Option (ι × α))) :
    tickets (some held :: rest) = held.1 :: tickets rest :=
  rfl

theorem mem_tickets {slots : List (Option (ι × α))} {ticket : ι} :
    ticket ∈ tickets slots ↔ ∃ payload, some (ticket, payload) ∈ slots := by
  induction slots with
  | nil => simp [tickets]
  | cons slot rest inductionHypothesis =>
      cases slot with
      | none => simp [inductionHypothesis]
      | some held =>
          obtain ⟨other, payload⟩ := held
          simp only [tickets_held, List.mem_cons, inductionHypothesis, Option.some.injEq,
            Prod.mk.injEq]
          constructor
          · rintro (rfl | ⟨payload, member⟩)
            · exact ⟨payload, .inl ⟨rfl, rfl⟩⟩
            · exact ⟨payload, .inr member⟩
          · rintro ⟨payload, ⟨rfl, -⟩ | member⟩
            · exact .inl rfl
            · exact .inr ⟨payload, member⟩

/-- What the tickets in the slots stand for. -/
def contents (slots : List (Option (ι × α))) : List α :=
  slots.filterMap (Option.map Prod.snd)

@[simp] theorem contents_append (left right : List (Option (ι × α))) :
    contents (left ++ right) = contents left ++ contents right :=
  List.filterMap_append

@[simp] theorem contents_free (rest : List (Option (ι × α))) :
    contents (none :: rest) = contents rest :=
  rfl

@[simp] theorem contents_held (held : ι × α) (rest : List (Option (ι × α))) :
    contents (some held :: rest) = held.2 :: contents rest :=
  rfl

theorem place_cases (ticket : ι) (payload : α) (slots : List (Option (ι × α))) :
    (none ∉ slots ∧ place ticket payload slots = none) ∨
      ∃ before after, slots = before ++ none :: after ∧
        place ticket payload slots = some (before ++ some (ticket, payload) :: after) := by
  induction slots with
  | nil => exact .inl ⟨by simp, rfl⟩
  | cons slot rest inductionHypothesis =>
      cases slot with
      | none => exact .inr ⟨[], rest, rfl, rfl⟩
      | some held =>
          rcases inductionHypothesis with ⟨full, fails⟩ | ⟨before, after, split, placed⟩
          · exact .inl ⟨by simpa using full, by simp [place, fails]⟩
          · exact .inr ⟨some held :: before, after, by simp [split], by simp [place, placed]⟩

theorem place_eq_none_iff {ticket : ι} {payload : α} {slots : List (Option (ι × α))} :
    place ticket payload slots = none ↔ none ∉ slots := by
  rcases place_cases ticket payload slots with ⟨full, fails⟩ | ⟨before, after, split, placed⟩
  · exact iff_of_true fails full
  · exact iff_of_false (by simp [placed]) (by simp [split])

theorem take_cases [DecidableEq ι] (ticket : ι) (slots : List (Option (ι × α))) :
    (ticket ∉ tickets slots ∧ take ticket slots = (none, slots)) ∨
      ∃ before payload after, slots = before ++ some (ticket, payload) :: after ∧
        take ticket slots = (some payload, before ++ none :: after) := by
  induction slots with
  | nil => exact .inl ⟨by simp [tickets], rfl⟩
  | cons slot rest inductionHypothesis =>
      cases slot with
      | none =>
          rcases inductionHypothesis with ⟨absent, fails⟩ | ⟨before, payload, after, split, taken⟩
          · exact .inl ⟨absent, by simp [take, fails]⟩
          · exact .inr ⟨none :: before, payload, after, by simp [split], by simp [take, taken]⟩
      | some held =>
          by_cases same : held.1 = ticket
          · subst same
            exact .inr ⟨[], held.2, rest, rfl, by simp [take]⟩
          · rcases inductionHypothesis with
              ⟨absent, fails⟩ | ⟨before, payload, after, split, taken⟩
            · exact .inl ⟨by simp [absent, Ne.symm same], by simp [take, same, fails]⟩
            · exact .inr
                ⟨some held :: before, payload, after, by simp [split], by simp [take, same, taken]⟩

theorem mem_of_take [DecidableEq ι] {ticket : ι} {payload : α} {slots : List (Option (ι × α))}
    (taken : (take ticket slots).1 = some payload) : some (ticket, payload) ∈ slots := by
  rcases take_cases ticket slots with ⟨-, fails⟩ | ⟨before, found, after, split, took⟩
  · rw [fails] at taken
    cases taken
  · rw [took] at taken
    cases taken
    simp [split]

/-! ### Other payloads -/

/-- The same tickets with other payloads. -/
def relabel (f : α → β) (slots : List (Option (ι × α))) : List (Option (ι × β)) :=
  slots.map (Option.map (Prod.map id f))

theorem place_relabel (f : α → β) (ticket : ι) (payload : α) (slots : List (Option (ι × α))) :
    place ticket (f payload) (relabel f slots) = (place ticket payload slots).map (relabel f) := by
  induction slots with
  | nil => rfl
  | cons slot rest inductionHypothesis =>
      cases slot with
      | none => rfl
      | some held =>
          change (place ticket (f payload) (relabel f rest)).map _ = _
          rw [inductionHypothesis]
          simp only [place, Option.map_map]
          rfl

theorem take_relabel [DecidableEq ι] (f : α → β) (ticket : ι) (slots : List (Option (ι × α))) :
    take ticket (relabel f slots) =
      ((take ticket slots).1.map f, relabel f (take ticket slots).2) := by
  induction slots with
  | nil => rfl
  | cons slot rest inductionHypothesis =>
      cases slot with
      | none =>
          change ((take ticket (relabel f rest)).1, none :: (take ticket (relabel f rest)).2) = _
          rw [inductionHypothesis]
          rfl
      | some held =>
          change (if held.1 = ticket then _ else
            ((take ticket (relabel f rest)).1,
              some (held.1, f held.2) :: (take ticket (relabel f rest)).2)) = _
          rw [inductionHypothesis]
          by_cases same : held.1 = ticket
          · simp only [take, same, if_true]
            rfl
          · simp only [take, same, if_false]
            rfl

/-! ## History -/

/-- The ticket was issued for the payload since the desk was last cleared, and
was not called since. -/
def Outstanding (history : List (DeskEvent ι α)) (ticket : ι) (payload : α) : Prop :=
  ∃ newer older, history = newer ++ .issued ticket payload :: older ∧
    ∀ event ∈ newer, event ≠ .cleared ∧ event ≠ .called ticket

theorem outstanding_cons {event : DeskEvent ι α} {history : List (DeskEvent ι α)} {ticket : ι}
    {payload : α} :
    Outstanding (event :: history) ticket payload ↔
      event = .issued ticket payload ∨
        event ≠ .cleared ∧ event ≠ .called ticket ∧ Outstanding history ticket payload := by
  constructor
  · rintro ⟨newer, older, split, quiet⟩
    cases newer with
    | nil =>
        injection split with same
        exact .inl same
    | cons first newer =>
        injection split with same rest
        subst same
        obtain ⟨uncleared, uncalled⟩ := quiet event (by simp)
        refine .inr ⟨uncleared, uncalled, newer, older, rest, fun other member => ?_⟩
        exact quiet other (List.mem_cons_of_mem _ member)
  · rintro (rfl | ⟨uncleared, uncalled, newer, older, rfl, quiet⟩)
    · exact ⟨[], history, rfl, by simp⟩
    · refine ⟨event :: newer, older, rfl, fun other member => ?_⟩
      rcases List.mem_cons.mp member with rfl | member
      · exact ⟨uncleared, uncalled⟩
      · exact quiet other member

/-- How many tickets were issued since the desk was last cleared. -/
def issuedSince : List (DeskEvent ι α) → Nat
  | [] => 0
  | .cleared :: _ => 0
  | .issued _ _ :: older => issuedSince older + 1
  | .called _ :: older => issuedSince older

/-! ## Operations -/

def clear (desk : Desk ι α) : Desk ι α where
  slots := desk.slots.map fun _ => none
  history := .cleared :: desk.history

/-- A full desk issues no ticket. -/
def issue (ticket : ι) (payload : α) (desk : Desk ι α) : Desk ι α :=
  match place ticket payload desk.slots with
  | none => desk
  | some slots => ⟨slots, .issued ticket payload :: desk.history⟩

def call [DecidableEq ι] (ticket : ι) (desk : Desk ι α) : Desk ι α where
  slots := (take ticket desk.slots).2
  history := .called ticket :: desk.history

/-- What the desk answers to a call. -/
def answer [DecidableEq ι] (ticket : ι) (desk : Desk ι α) : Option α :=
  (take ticket desk.slots).1

section Operations

variable {desk : Desk ι α} {ticket other : ι} {payload content : α}

/-- Either the desk is full and stays as it is, or the ticket is issued. -/
theorem issue_cases (ticket : ι) (payload : α) (desk : Desk ι α) :
    (none ∉ desk.slots ∧ desk.issue ticket payload = desk) ∨
      ∃ before after, desk.slots = before ++ none :: after ∧
        desk.issue ticket payload =
          ⟨before ++ some (ticket, payload) :: after, .issued ticket payload :: desk.history⟩ := by
  unfold issue
  rcases place_cases ticket payload desk.slots with ⟨full, fails⟩ | ⟨before, after, split, placed⟩
  · rw [fails]
    exact .inl ⟨full, rfl⟩
  · rw [placed]
    exact .inr ⟨before, after, split, rfl⟩

theorem mem_issue (held : some (other, content) ∈ (desk.issue ticket payload).slots) :
    (other = ticket ∧ content = payload) ∨ some (other, content) ∈ desk.slots := by
  rcases issue_cases ticket payload desk with ⟨-, same⟩ | ⟨before, after, split, issued⟩
  · rw [same] at held
    exact .inr held
  · rw [issued] at held
    simp only [List.mem_append, List.mem_cons, Option.some.injEq, Prod.mk.injEq] at held
    rw [split]
    rcases held with earlier | same | later
    · exact .inr (List.mem_append_left _ earlier)
    · exact .inl same
    · exact .inr (List.mem_append_right _ (.tail _ later))

theorem mem_call [DecidableEq ι] (held : some (other, content) ∈ (desk.call ticket).slots) :
    some (other, content) ∈ desk.slots := by
  unfold call at held
  rcases take_cases ticket desk.slots with ⟨-, fails⟩ | ⟨before, found, after, split, taken⟩
  · rw [fails] at held
    exact held
  · rw [taken] at held
    simp only [List.mem_append, List.mem_cons, reduceCtorEq, false_or] at held
    simp only [split, List.mem_append, List.mem_cons]
    exact held.imp_right .inr

theorem contents_clear : contents desk.clear.slots = [] := by
  simp [contents, clear]

/-- Issuing a ticket adds its payload, unless the desk is full. -/
theorem contents_issue :
    (contents (desk.issue ticket payload).slots).Subperm (payload :: contents desk.slots) := by
  rcases issue_cases ticket payload desk with ⟨-, same⟩ | ⟨before, after, split, issued⟩
  · rw [same]
    exact (List.sublist_cons_self ..).subperm
  · rw [issued, split, contents_append, contents_append, contents_held, contents_free]
    exact List.perm_middle.subperm

/-- A call moves a payload from the slots to the answer. -/
theorem contents_call [DecidableEq ι] :
    (contents (desk.call ticket).slots ++ (desk.answer ticket).toList).Perm
      (contents desk.slots) := by
  unfold call answer
  rcases take_cases ticket desk.slots with ⟨-, fails⟩ | ⟨before, found, after, split, taken⟩
  · rw [fails]
    exact .of_eq (List.append_nil _)
  · rw [taken, split, contents_append, contents_append, contents_held, contents_free]
    exact (List.perm_append_singleton ..).trans List.perm_middle.symm

theorem not_outstanding_clear : ¬ Outstanding desk.clear.history ticket payload := by
  simp [clear, outstanding_cons]

theorem outstanding_issue :
    Outstanding (desk.issue ticket payload).history other content ↔
      (none ∈ desk.slots ∧ other = ticket ∧ content = payload) ∨
        Outstanding desk.history other content := by
  rcases issue_cases ticket payload desk with ⟨full, same⟩ | ⟨before, after, split, issued⟩
  · simp [same, full]
  · simp [issued, split, outstanding_cons, eq_comm]

theorem outstanding_call [DecidableEq ι] :
    Outstanding (desk.call ticket).history other content ↔
      other ≠ ticket ∧ Outstanding desk.history other content := by
  simp [call, outstanding_cons, eq_comm]

theorem issuedSince_issue_le :
    issuedSince (desk.issue ticket payload).history ≤ issuedSince desk.history + 1 := by
  rcases issue_cases ticket payload desk with ⟨-, same⟩ | ⟨before, after, -, issued⟩
  · rw [same]
    omega
  · rw [issued]
    exact le_rfl

end Operations

/-- The slots hold exactly the outstanding tickets, each once, and tickets that
are numbered in the order of their issue. -/
structure Tracks (number : Nat → ι) (desk : Desk ι α) : Prop where
  numbered : ∀ ticket ∈ tickets desk.slots, ∃ k < issuedSince desk.history, ticket = number k
  nodup : (tickets desk.slots).Nodup
  holds : ∀ ticket payload,
    some (ticket, payload) ∈ desk.slots ↔ Outstanding desk.history ticket payload

namespace Tracks

variable {number : Nat → ι} {desk : Desk ι α}

theorem clear (number : Nat → ι) (desk : Desk ι α) : Tracks number desk.clear := by
  have empty : tickets desk.clear.slots = [] := by
    simp [Desk.clear, tickets]
  constructor
  · simp [empty]
  · simp [empty]
  · intro ticket payload
    refine iff_of_false ?_ not_outstanding_clear
    simp [Desk.clear]

/-- The next number is new as long as the numbers issued so far are different
from it. -/
theorem issue (tracks : Tracks number desk) {limit : Nat}
    (injective : Set.InjOn number (Set.Iio limit)) (payload : α)
    (room : issuedSince (desk.issue (number (issuedSince desk.history)) payload).history ≤ limit) :
    Tracks number (desk.issue (number (issuedSince desk.history)) payload) := by
  rcases issue_cases (number (issuedSince desk.history)) payload desk with
    ⟨-, same⟩ | ⟨before, after, split, issued⟩
  · rw [same]
    exact tracks
  · rw [issued] at room ⊢
    replace room : issuedSince desk.history + 1 ≤ limit := room
    have fresh : number (issuedSince desk.history) ∉ tickets desk.slots := by
      intro member
      obtain ⟨k, below, same⟩ := tracks.numbered _ member
      have equal := injective (Set.mem_Iio.mpr (by omega)) (Set.mem_Iio.mpr (by omega)) same
      omega
    have numbered := tracks.numbered
    have nodup := tracks.nodup
    simp only [split, tickets_append, tickets_free, List.mem_append] at fresh numbered nodup
    constructor
    · intro ticket member
      simp only [tickets_append, tickets_held, List.mem_append, List.mem_cons] at member
      change ∃ k < issuedSince desk.history + 1, ticket = number k
      rcases member with earlier | rfl | earlier
      · obtain ⟨k, below, same⟩ := numbered ticket (.inl earlier)
        exact ⟨k, by omega, same⟩
      · exact ⟨_, by omega, rfl⟩
      · obtain ⟨k, below, same⟩ := numbered ticket (.inr earlier)
        exact ⟨k, by omega, same⟩
    · simp only [tickets_append, tickets_held]
      rw [List.nodup_middle]
      exact List.nodup_cons.mpr ⟨by simpa using fresh, nodup⟩
    · intro ticket other
      have held := tracks.holds ticket other
      rw [split] at held
      simp only [outstanding_cons, DeskEvent.issued.injEq, reduceCtorEq, ne_eq, not_false_eq_true,
        true_and, ← held]
      simp only [List.mem_append, List.mem_cons, Option.some.injEq, Prod.mk.injEq, reduceCtorEq,
        false_or]
      tauto

theorem call [DecidableEq ι] (tracks : Tracks number desk) (ticket : ι) :
    Tracks number (desk.call ticket) := by
  unfold Desk.call
  rcases take_cases ticket desk.slots with ⟨absent, fails⟩ | ⟨before, payload, after, split, taken⟩
  · rw [fails]
    refine ⟨tracks.numbered, tracks.nodup, fun other payload => ?_⟩
    rw [outstanding_cons, ← tracks.holds]
    constructor
    · intro member
      refine .inr ⟨by simp, ?_, member⟩
      rintro ⟨⟩
      exact absent (mem_tickets.mpr ⟨payload, member⟩)
    · rintro (⟨⟨⟩⟩ | ⟨-, -, member⟩)
      exact member
  · rw [taken]
    have numbered := tracks.numbered
    have nodup := tracks.nodup
    simp only [split, tickets_append, tickets_held] at numbered nodup
    rw [List.nodup_middle, List.nodup_cons] at nodup
    constructor
    · intro other member
      simp only [tickets_append, tickets_free, List.mem_append] at member
      exact numbered other (by simp; tauto)
    · simpa using nodup.2
    · intro other content
      have held := tracks.holds other content
      rw [split] at held
      simp only [outstanding_cons, reduceCtorEq, DeskEvent.called.injEq, ne_eq, not_false_eq_true,
        true_and, false_or, ← held]
      simp only [List.mem_append, List.mem_cons, Option.some.injEq, Prod.mk.injEq, reduceCtorEq,
        false_or]
      constructor
      · intro member
        have listed : other ∈ tickets before ++ tickets after := by
          rw [List.mem_append, mem_tickets, mem_tickets]
          exact member.imp (fun held => ⟨content, held⟩) fun held => ⟨content, held⟩
        refine ⟨?_, by tauto⟩
        rintro rfl
        exact nodup.1 listed
      · rintro ⟨differs, member⟩
        rcases member with earlier | ⟨same, -⟩ | later
        · exact .inl earlier
        · exact absurd same.symm differs
        · exact .inr later

/-- A call is answered exactly if its ticket is outstanding, with the payload it
was issued for. -/
theorem answer_eq_some_iff [DecidableEq ι] (tracks : Tracks number desk) (ticket : ι)
    (payload : α) :
    desk.answer ticket = some payload ↔ Outstanding desk.history ticket payload := by
  rw [← tracks.holds]
  unfold answer
  rcases take_cases ticket desk.slots with ⟨absent, fails⟩ | ⟨before, found, after, split, taken⟩
  · rw [fails]
    constructor
    · rintro ⟨⟩
    · intro member
      exact absurd (mem_tickets.mpr ⟨payload, member⟩) absent
  · have nodup := tracks.nodup
    rw [taken]
    simp only [split, tickets_append, tickets_held] at nodup
    rw [List.nodup_middle, List.nodup_cons, List.mem_append, mem_tickets, mem_tickets] at nodup
    simp only [split, List.mem_append, List.mem_cons, Option.some.injEq, Prod.mk.injEq, true_and]
    constructor
    · rintro rfl
      exact .inr (.inl rfl)
    · rintro (earlier | same | later)
      · exact absurd (.inl ⟨payload, earlier⟩) nodup.1
      · exact same.symm
      · exact absurd (.inr ⟨payload, later⟩) nodup.1

end Tracks

end Desk

end EpicMiner.Library
