import Mathlib.Data.List.Basic

/-!
Owns streams of lines: texts that are each ended by a separator, and how the
first line and the last separator of a part of such a stream are found.
-/

namespace EpicMiner.Library.Lines

variable {α : Type*} {separator : α}

/-- The stream of the given texts, each ended by the separator. -/
def joined (separator : α) : List (List α) → List α
  | [] => []
  | text :: texts => text ++ separator :: joined separator texts

theorem split_first {left right left' right' : List α} (clean : separator ∉ left)
    (clean' : separator ∉ left')
    (same : left ++ separator :: right = left' ++ separator :: right') :
    left = left' ∧ right = right' := by
  induction left generalizing left' with
  | nil =>
      cases left' with
      | nil => exact ⟨rfl, List.tail_eq_of_cons_eq same⟩
      | cons head tail =>
          have headSame : separator = head := List.head_eq_of_cons_eq same
          exact absurd (headSame ▸ List.mem_cons_self) clean'
  | cons head tail inductionHypothesis =>
      cases left' with
      | nil =>
          have headSame : head = separator := List.head_eq_of_cons_eq same
          exact absurd (headSame ▸ List.mem_cons_self) clean
      | cons head' tail' =>
          obtain ⟨rfl, rest⟩ := List.cons_eq_cons.mp same
          have tails := inductionHypothesis (fun member => clean (.tail _ member))
            (fun member => clean' (.tail _ member)) rest
          exact ⟨by rw [tails.1], tails.2⟩

theorem exists_last {bytes : List α} (member : separator ∈ bytes) :
    ∃ lines rest, bytes = lines ++ separator :: rest ∧ separator ∉ rest := by
  obtain ⟨behind, before, split, clean⟩ :=
    List.eq_append_cons_of_mem (List.mem_reverse.mpr member)
  refine ⟨before.reverse, behind.reverse, ?_, by simpa using clean⟩
  simpa using congrArg List.reverse split

theorem exists_only [DecidableEq α] {bytes : List α} (once : bytes.count separator = 1) :
    ∃ line rest, bytes = line ++ separator :: rest ∧ separator ∉ line ∧ separator ∉ rest := by
  have member : separator ∈ bytes := List.count_pos_iff.mp (by omega)
  obtain ⟨line, rest, rfl, clean⟩ := exists_last member
  refine ⟨line, rest, rfl, ?_, clean⟩
  rw [List.count_append, List.count_cons_self] at once
  exact List.count_eq_zero.mp (by omega)

/-! ## Parts of a stream -/

variable {texts : List (List α)} (clean : ∀ text ∈ texts, separator ∉ text)

include clean

theorem joined_first {line rest : List α} (lineClean : separator ∉ line)
    (stream : line ++ separator :: rest = joined separator texts) :
    ∃ later, texts = line :: later ∧ rest = joined separator later := by
  cases texts with
  | nil => simp [joined] at stream
  | cons text later =>
      obtain ⟨rfl, rest⟩ := split_first lineClean (clean text (.head _)) stream
      exact ⟨later, rfl, rest⟩

/-- Several lines of a stream, taken together, are its first text, a separator
and more that starts with the second text. -/
theorem joined_lines {lines rest : List α} (several : separator ∈ lines)
    (stream : lines ++ separator :: rest = joined separator texts) :
    ∃ first second later tail, texts = first :: second :: later ∧
      lines = first ++ separator :: (second ++ tail) := by
  obtain ⟨first, more, rfl, firstClean⟩ := List.eq_append_cons_of_mem several
  rw [List.append_assoc, List.cons_append] at stream
  obtain ⟨later, rfl, moreStream⟩ := joined_first clean firstClean stream
  have laterClean : ∀ text ∈ later, separator ∉ text :=
    fun text member => clean text (.tail _ member)
  by_cases another : separator ∈ more
  · obtain ⟨second, tail, rfl, secondClean⟩ := List.eq_append_cons_of_mem another
    rw [List.append_assoc, List.cons_append] at moreStream
    obtain ⟨latest, rfl, -⟩ := joined_first laterClean secondClean moreStream
    exact ⟨first, second, latest, separator :: tail, rfl, rfl⟩
  · obtain ⟨latest, rfl, -⟩ := joined_first laterClean another moreStream
    exact ⟨first, more, latest, [], rfl, by simp⟩

omit clean

theorem mem_joined {byte : α} (member : byte ∈ joined separator texts) :
    byte = separator ∨ ∃ text ∈ texts, byte ∈ text := by
  induction texts with
  | nil => cases member
  | cons text later inductionHypothesis =>
      rcases List.mem_append.mp member with inText | inRest
      · exact .inr ⟨text, .head _, inText⟩
      · rcases List.mem_cons.mp inRest with same | inLater
        · exact .inl same
        · apply (inductionHypothesis inLater).imp id
          rintro ⟨other, otherMember, inOther⟩
          exact ⟨other, .tail _ otherMember, inOther⟩

/-! ## Cutting a stream -/

variable [DecidableEq α]

/-- The lines of a stream behind the part of one that is already read, the last byte first. A
line that is not ended yet is kept back. -/
def cutFrom (separator : α) (begun : List α) : List α → List (List α)
  | [] => []
  | byte :: bytes =>
      if byte = separator then begun.reverse :: cutFrom separator [] bytes
      else cutFrom separator (byte :: begun) bytes

def cut (separator : α) (bytes : List α) : List (List α) :=
  cutFrom separator [] bytes

theorem cutFrom_append {text : List α} (clean : separator ∉ text) (begun rest : List α) :
    cutFrom separator begun (text ++ separator :: rest) =
      (begun.reverse ++ text) :: cut separator rest := by
  induction text generalizing begun with
  | nil => simp [cutFrom, cut]
  | cons byte text inductionHypothesis =>
      have differs : byte ≠ separator := by
        rintro rfl
        exact clean (.head _)
      rw [List.cons_append, cutFrom, if_neg differs,
        inductionHypothesis fun member => clean (.tail _ member)]
      simp

/-- Joined texts are cut apart again. -/
theorem cut_joined {texts : List (List α)} (clean : ∀ text ∈ texts, separator ∉ text) :
    cut separator (joined separator texts) = texts := by
  induction texts with
  | nil => rfl
  | cons text texts inductionHypothesis =>
      rw [joined, cut, cutFrom_append (clean text (.head _)),
        inductionHypothesis fun other member => clean other (.tail _ member)]
      rfl

end EpicMiner.Library.Lines
