import EpicMiner.EventLoop.Messages
import EpicMiner.EventLoop.Turns
import EpicMiner.Library.Lines
import Mathlib.Data.List.TakeWhile

/-!
Owns the framing of a plain connection: which documents reach
`process_json_doc` for a stream of messages, however it is cut into reads. The
line search looks for the last newline of the unread bytes, so that two
messages that end in one read are taken for one text.
-/

namespace EpicMiner.EventLoop

open EpicMiner.Library
open EpicMiner.Library.Program
open EpicMiner.Data

/-! ## Line search -/

theorem myMemrchr_none {data : Bytes} {c : UInt8} (clean : c ∉ data) (n : Nat) :
    myMemrchr data c n = none := by
  induction n with
  | zero => rfl
  | succ n inductionHypothesis =>
      have other : data[n]? ≠ some c := fun found => clean (List.mem_of_getElem? found)
      rw [myMemrchr, if_neg other]
      exact inductionHypothesis

theorem myMemrchr_last (lines : Bytes) {rest : Bytes} {c : UInt8} (clean : c ∉ rest) :
    myMemrchr (lines ++ c :: rest) c (lines ++ c :: rest).length = some lines.length := by
  have behind : ∀ n, n ≤ rest.length →
      myMemrchr (lines ++ c :: rest) c (lines.length + 1 + n) = some lines.length := by
    intro n
    induction n with
    | zero => simp [myMemrchr]
    | succ n inductionHypothesis =>
        intro within
        have other : (lines ++ c :: rest)[lines.length + 1 + n]? ≠ some c := by
          rw [List.getElem?_append_right (by omega)]
          intro found
          rw [show lines.length + 1 + n - lines.length = n + 1 by omega,
            List.getElem?_cons_succ] at found
          exact clean (List.mem_of_getElem? found)
        rw [← Nat.add_assoc, myMemrchr, if_neg other]
        exact inductionHypothesis (by omega)
  have whole := behind rest.length le_rfl
  rwa [show lines.length + 1 + rest.length = (lines ++ c :: rest).length by
    simp only [List.length_append, List.length_cons]; omega] at whole

/-! ## Consume loop -/

section ConsumeLoop

variable {σ : Type} {size : Nat} {consume : Bytes → Program Fault σ (Int × Bytes)}
  {buffer : Buffer size} {recvPos : Nat} {state next : σ} {fault : Fault → Prop}

theorem consumeLoop_noLine (fits : recvPos ≤ size)
    (call : (consume (buffer.slice 0 recvPos)).run state =
      .ok ((0, buffer.slice 0 recvPos), state)) :
    Ensures (consumeLoop consume buffer recvPos) state
      (fun result next => result.1 = true ∧ result.2.2 = recvPos ∧
        result.2.1.slice 0 recvPos = buffer.slice 0 recvPos ∧ next = state) fault := by
  have length := buffer.length_slice_zero fits
  have kept := buffer.slice_write_self 0 (buffer.slice 0 recvPos) (by omega)
  rw [length] at kept
  unfold consumeLoop consumeFrom
  simp only [Nat.sub_zero]
  rw [ensures_bind, ensures_bind_of_run call]
  simp [kept]

theorem consumeLoop_line {consumed : Nat} {left : Bytes} (fits : recvPos ≤ size)
    (length : left.length = recvPos) (positive : 0 < consumed) (within : consumed ≤ recvPos)
    (call : (consume (buffer.slice 0 recvPos)).run state = .ok (((consumed : Nat), left), next))
    (again : (consume (left.drop consumed)).run next = .ok ((0, left.drop consumed), next)) :
    Ensures (consumeLoop consume buffer recvPos) state
      (fun result last => result.1 = true ∧ result.2.2 = recvPos - consumed ∧
        result.2.1.slice 0 (recvPos - consumed) = left.drop consumed ∧ last = next) fault := by
  have stored := buffer.slice_write_self 0 left (by omega)
  rw [length] at stored
  have restLength : (left.drop consumed).length = recvPos - consumed := by simp [length]
  unfold consumeLoop
  rw [ensures_bind]
  unfold consumeFrom
  simp only [Nat.sub_zero]
  rw [ensures_bind_of_run call]
  have round : ¬ ((consumed : Nat) : Int) < 0 := by omega
  rcases Nat.lt_or_eq_of_le within with more | all
  · obtain ⟨fuel, rfl⟩ : ∃ fuel, recvPos = fuel + 1 := ⟨recvPos - 1, by omega⟩
    have behind : (buffer.write 0 left).slice consumed (fuel + 1 - consumed) =
        left.drop consumed := by
      rw [Buffer.slice_eq_drop, stored]
    have moved := Buffer.slice_write_self
      ((buffer.write 0 left).write consumed (left.drop consumed)) 0 (left.drop consumed) (by omega)
    have kept := (buffer.write 0 left).slice_write_self consumed (left.drop consumed) (by omega)
    rw [restLength] at moved kept
    have nothing : ¬ ((fuel + 1 - consumed : Nat) : Int) < 0 := by omega
    unfold consumeFrom
    generalize fuel + 1 = stop at *
    simp [round, nothing, show ¬ stop < consumed by omega, show consumed ≠ 0 by omega,
      show stop ≠ consumed by omega, more, behind, ensures_bind_of_run again, positive, kept, moved]
  · subst all
    simp [round, Buffer.slice, length]

theorem consumeLoop_failed {post : Int × Bytes → σ → Prop}
    (call : Ensures (consume (buffer.slice 0 recvPos)) state
      (fun result next => result.1 = -1 ∧ post result next) fault) :
    Ensures (consumeLoop consume buffer recvPos) state
      (fun result next => result.1 = false ∧ ∃ value, post value next) fault := by
  unfold consumeLoop consumeFrom
  simp only [Nat.sub_zero]
  rw [ensures_bind, ensures_bind]
  apply call.mono
  rintro ⟨cd, left⟩ next ⟨rfl, holds⟩
  simpa using ⟨_, _, holds⟩

end ConsumeLoop

/-! ## Documents -/

def Effect.handedDocument : Effect → Option Value
  | .document doc => some doc
  | _ => none

def documents (log : List Effect) : List Value :=
  (log.filterMap Effect.handedDocument).reverse

theorem documents_append (newer older : List Effect) :
    documents (newer ++ older) = documents older ++ documents newer := by
  simp [documents]

theorem documents_handling {newer : List Effect}
    (handlings : ∀ effect ∈ newer, effect.isHandling = true) : documents newer = [] := by
  have none : newer.filterMap Effect.handedDocument = [] := by
    refine List.filterMap_eq_nil_iff.mpr fun effect member => ?_
    have handling := handlings effect member
    cases effect <;> first | rfl | cases handling
  simp [documents, none]

theorem documents_processJsonDoc (config : Config) (doc : Value) {app next : App} {good : Bool}
    (processed : (processJsonDoc config doc).run app = .ok (good, next)) :
    documents next.log = documents app.log ++ [doc] := by
  obtain ⟨newer, log, handlings⟩ :=
    ((processJsonDoc_handles config doc app).of_run processed).log
  rw [log, documents_append, documents_handling handlings, List.append_nil]
  exact documents_append [.document doc] app.log

def documentless {Engine : Type} : Behaviour Fault (Sys Engine) where
  Change := fun sys next => documents next.app.log = documents sys.app.log
  Fault := fun _ _ => True
  refl := fun _ => rfl
  trans := fun before after => after.trans before
  fault_trans := fun _ _ => trivial

theorem documentless_core {Engine : Type} :
    Core (documentless : Behaviour Fault (Sys Engine)) where
  fault := fun _ _ _ => trivial
  sendIdle := fun _ _ _ _ => trivial
  shutdownIdle := fun _ _ _ => trivial
  logError := fun _ _ => rfl
  shutdownCalled := fun _ => rfl
  shutdownStarted := fun _ _ _ => rfl
  jobDropped := fun _ _ => rfl
  acquire := fun _ _ _ => rfl
  fill := fun _ _ _ _ => rfl
  handOver := fun _ _ _ _ _ => rfl
  engine := fun _ _ => rfl

/-! ## One text -/

section Texts

variable {Engine : Type} {env : Env Engine} {sys : Sys Engine} {fault : Fault → Prop}

theorem netOnDataRecv_noLine {data : Bytes} (clean : 10 ∉ data) :
    (netOnDataRecv env data).run sys = .ok ((0, data), sys) := by
  unfold netOnDataRecv
  rw [myMemrchr_none clean]
  rfl

theorem residue_line (rapidjson : RapidJson) (text rest : Bytes) :
    writeAt (writeAt (text ++ 10 :: rest) text.length [0]) 0 (rapidjson.residue text) =
      rapidjson.residue text ++ 0 :: rest := by
  have length := rapidjson.length_residue text
  rw [writeAt_eq _ text.length [0] (by simp), writeAt_eq _ 0 _ (by simp [length])]
  simp [length]

theorem netOnDataRecv_accepted {text rest : Bytes} {members : List (Bytes × Value)} {app : App}
    (clean : 0 ∉ text) (restClean : 10 ∉ rest)
    (parses : env.config.rapidjson.parseInsitu text = some (.object members))
    (accepted : (processJsonDoc env.config (.object members)).run sys.app = .ok (true, app)) :
    (netOnDataRecv env (text ++ 10 :: rest)).run sys =
      .ok (((text.length + 1 : Nat), env.config.rapidjson.residue text ++ 0 :: rest),
        { sys with app := app }) := by
  have handed : (liftApp (processJsonDoc env.config (.object members))).run sys =
      .ok (true, { sys with app := app }) :=
    run_zoom accepted
  unfold netOnDataRecv
  rw [myMemrchr_last text restClean]
  simp only [List.take_left, cString_of_not_mem clean, parses, residue_line]
  rw [StateT.run_bind, handed]
  rfl

theorem netOnDataRecv_unparsed {lines rest : Bytes} (restClean : 10 ∉ rest)
    (fails : env.config.rapidjson.parseInsitu (cString lines) = none) :
    Ensures (netOnDataRecv env (lines ++ 10 :: rest)) sys
      (fun result next => result.1 = -1 ∧ documents next.app.log = documents sys.app.log)
      fun _ => True := by
  unfold netOnDataRecv
  rw [myMemrchr_last lines restClean]
  simp only [List.take_left, fails]
  rw [ensures_bind]
  apply Ensures.mono (documentless_core.netOnError documentless_core.doShutdown _ sys)
  rintro _ next ⟨same, -⟩
  exact ⟨rfl, same⟩

end Texts

/-! ## One read -/

/-- The bytes that are received and not yet consumed. -/
structure Unread {Engine : Type} (sys : Sys Engine) (bytes : Bytes) : Prop where
  length : sys.net.recvPos = bytes.length
  stored : sys.net.recvBuf.slice 0 bytes.length = bytes
  fits : bytes.length ≤ 4096

section Reads

variable {Engine : Type} {env : Env Engine} (plain : env.useTls = false) {sys : Sys Engine}
  {fault : Fault → Prop}

include plain

theorem onSocketRead_noLine {data : Bytes} (unread : Unread sys data) (clean : 10 ∉ data) :
    Ensures (onSocketRead env) sys
      (fun good next => good = true ∧ Unread next data ∧ next.app = sys.app) fault := by
  have call : (netOnDataRecv env (sys.net.recvBuf.slice 0 sys.net.recvPos)).run sys =
      .ok ((0, sys.net.recvBuf.slice 0 sys.net.recvPos), sys) := by
    rw [unread.length, unread.stored]
    exact netOnDataRecv_noLine clean
  unfold onSocketRead
  rw [ensures_bind, ensures_get, plain, ensures_bind]
  apply (consumeLoop_noLine (unread.length ▸ unread.fits) call).mono
  rintro ⟨good, buffer, pos⟩ next ⟨rfl, rfl, kept, rfl⟩
  rw [unread.length, unread.stored] at kept
  exact ⟨rfl, ⟨unread.length, kept, unread.fits⟩, rfl⟩

theorem onSocketRead_accepted {text rest : Bytes} {members : List (Bytes × Value)} {app : App}
    (unread : Unread sys (text ++ 10 :: rest)) (clean : 0 ∉ text) (restClean : 10 ∉ rest)
    (parses : env.config.rapidjson.parseInsitu text = some (.object members))
    (accepted : (processJsonDoc env.config (.object members)).run sys.app = .ok (true, app)) :
    Ensures (onSocketRead env) sys
      (fun good next => good = true ∧ Unread next rest ∧ next.app = app) fault := by
  have residueLength := env.config.rapidjson.length_residue text
  have dropped :
      (env.config.rapidjson.residue text ++ 0 :: rest).drop (text.length + 1) = rest := by
    rw [← residueLength, ← List.drop_drop]
    simp
  have whole : sys.net.recvPos = text.length + 1 + rest.length := by
    rw [unread.length]
    simp
    omega
  have call : (netOnDataRecv env (sys.net.recvBuf.slice 0 sys.net.recvPos)).run sys =
      .ok (((text.length + 1 : Nat), env.config.rapidjson.residue text ++ 0 :: rest),
        { sys with app := app }) := by
    rw [unread.length, unread.stored]
    exact netOnDataRecv_accepted clean restClean parses accepted
  have again : (netOnDataRecv env rest).run { sys with app := app } =
      .ok ((0, rest), { sys with app := app }) := netOnDataRecv_noLine restClean
  rw [← dropped] at again
  unfold onSocketRead
  rw [ensures_bind, ensures_get, plain, ensures_bind]
  have fits := unread.length ▸ unread.fits
  refine (consumeLoop_line fits ?_ (by omega) (by omega) call again).mono ?_
  · simp [residueLength, whole]
    omega
  · rintro ⟨good, buffer, pos⟩ next ⟨rfl, rfl, kept, rfl⟩
    have length : sys.net.recvPos - (text.length + 1) = rest.length := by omega
    rw [dropped, length] at kept
    have fits := unread.fits
    simp only [List.length_append, List.length_cons] at fits
    exact ⟨rfl, ⟨length, kept, by omega⟩, rfl⟩

theorem onSocketRead_unparsed {lines rest : Bytes} (unread : Unread sys (lines ++ 10 :: rest))
    (restClean : 10 ∉ rest) (fails : env.config.rapidjson.parseInsitu (cString lines) = none) :
    Ensures (onSocketRead env) sys
      (fun good next => good = false ∧ documents next.app.log = documents sys.app.log)
      fun _ => True := by
  have call : Ensures (netOnDataRecv env (lines ++ 10 :: rest)) sys
      (fun result next => result.1 = -1 ∧ documents next.app.log = documents sys.app.log)
      fun _ => True := netOnDataRecv_unparsed restClean fails
  rw [← unread.stored, ← unread.length] at call
  unfold onSocketRead
  rw [ensures_bind, ensures_get, plain, ensures_bind]
  apply (consumeLoop_failed call).mono
  rintro ⟨good, buffer, pos⟩ next ⟨rfl, _, same⟩
  exact ⟨rfl, same⟩

omit plain in
theorem step_of_ensures {input : Input} {post : Sys Engine → Prop}
    (enabled : Enabled sys input.event)
    (ensures : Ensures (callback env input.event) (sys.answering input) (fun _ next => post next)
      fun _ => False) : ∃ next, step env sys input = some next ∧ post next := by
  obtain ⟨⟨⟩, next, run, holds⟩ := ensures.exists_run
  refine ⟨next, ?_, holds⟩
  rw [step, if_pos enabled, handle, run]
  rfl

omit plain in
theorem Unread.store {bytes chunk : Bytes} (unread : Unread sys bytes)
    (fits : bytes.length + chunk.length ≤ 4096) :
    Unread (sys.withReceived (sys.net.recvBuf.write sys.net.recvPos chunk)
      (sys.net.recvPos + chunk.length)) (bytes ++ chunk) := by
  have behind := sys.net.recvBuf.slice_write_behind bytes.length chunk fits
  rw [unread.stored, ← unread.length] at behind
  refine ⟨?_, ?_, by simpa using fits⟩
  · simp [Sys.withReceived, unread.length]
  · rw [List.length_append, ← unread.length]
    exact behind

variable {input : Input} {unreadBytes chunk : Bytes} (unread : Unread sys unreadBytes)
  (read : input.event = .read chunk) (enabled : Enabled sys input.event)

include unread read enabled

omit plain in
theorem Unread.answering_store : Unread ((sys.answering input).withReceived
    (sys.net.recvBuf.write sys.net.recvPos chunk) (sys.net.recvPos + chunk.length))
    (unreadBytes ++ chunk) := by
  rw [read] at enabled
  have admitted : Unread (sys.answering input) unreadBytes :=
    ⟨unread.length, unread.stored, unread.fits⟩
  exact admitted.store (unread.length ▸ enabled.2.2)

theorem step_noLine (clean : 10 ∉ unreadBytes ++ chunk) :
    ∃ next, step env sys input = some next ∧ Unread next (unreadBytes ++ chunk) ∧
      next.app = (sys.answering input).app := by
  have stored := unread.answering_store read enabled
  apply step_of_ensures enabled
  rw [read]
  refine (ensures_bind_of_run rfl).mpr ((ensures_bind ..).mpr ?_)
  apply (onSocketRead_noLine plain stored clean).mono
  rintro _ next ⟨rfl, ended⟩
  exact ended

theorem step_accepted {text rest : Bytes} {members : List (Bytes × Value)} {app : App}
    (split : unreadBytes ++ chunk = text ++ 10 :: rest) (clean : 0 ∉ text) (restClean : 10 ∉ rest)
    (parses : env.config.rapidjson.parseInsitu text = some (.object members))
    (accepted : (processJsonDoc env.config (.object members)).run (sys.answering input).app =
      .ok (true, app)) :
    ∃ next, step env sys input = some next ∧ Unread next rest ∧ next.app = app := by
  have stored := unread.answering_store read enabled
  rw [split] at stored
  apply step_of_ensures enabled
  rw [read]
  refine (ensures_bind_of_run rfl).mpr ((ensures_bind ..).mpr ?_)
  apply (onSocketRead_accepted plain stored clean restClean parses accepted).mono
  rintro _ next ⟨rfl, ended⟩
  exact ended

theorem step_unparsed {lines rest : Bytes} (split : unreadBytes ++ chunk = lines ++ 10 :: rest)
    (restClean : 10 ∉ rest) (fails : env.config.rapidjson.parseInsitu (cString lines) = none)
    {next : Sys Engine} (stepped : step env sys input = some next) :
    documents next.app.log = documents sys.app.log := by
  have stored := unread.answering_store read enabled
  rw [split] at stored
  have ensured : Ensures (callback env input.event) (sys.answering input)
      (fun _ next => documents next.app.log = documents sys.app.log) fun _ => True := by
    rw [read]
    refine (ensures_bind_of_run rfl).mpr ((ensures_bind ..).mpr ?_)
    apply (onSocketRead_unparsed plain stored restClean fails).mono
    rintro _ failed ⟨rfl, same⟩
    apply Ensures.mono (documentless_core.doShutdown failed)
    rintro _ last ⟨still, -⟩
    exact still.trans same
  exact ensured.of_run (run_of_handle (step_enabled stepped).2)

end Reads

/-! ## Streams of messages -/

/-- A message of the server: an object without raw newline or NUL bytes. -/
structure ServerMessage (rapidjson : RapidJson) where
  text : Bytes
  members : List (Bytes × Value)
  parses : rapidjson.parseInsitu text = some (.object members)
  noNewline : 10 ∉ text
  noNul : 0 ∉ text

def ServerMessage.doc {rapidjson : RapidJson} (message : ServerMessage rapidjson) : Value :=
  .object message.members

/-- The bytes of the messages, each ended by a newline. -/
def stream {rapidjson : RapidJson} (messages : List (ServerMessage rapidjson)) : Bytes :=
  Lines.joined 10 (messages.map ServerMessage.text)

def Input.chunk (input : Input) : Bytes :=
  match input.event with
  | .read chunk => chunk
  | _ => []

/-- The number of messages that the given reads complete. -/
def newlines : List Input → Nat
  | [] => 0
  | input :: rest => input.chunk.count 10 + newlines rest

theorem newlines_cons (input : Input) (rest : List Input) :
    newlines (input :: rest) = newlines [input] + newlines rest := by
  simp [newlines]

theorem newlines_single (input : Input) : newlines [input] = input.chunk.count 10 := by
  simp [newlines]

/-- The documents are accepted, one after the other. -/
def Accepted (config : Config) : App → List Value → Prop
  | _, [] => True
  | app, doc :: docs =>
      ∃ next, (processJsonDoc config doc).run app = .ok (true, next) ∧ Accepted config next docs

section Streams

variable {Engine : Type} (env : Env Engine) (sys : Sys Engine)
  (messages : List (ServerMessage env.config.rapidjson))

/-- The documents handed over from `sys` to `last` are those of the messages that
`served` completes, once each and in order. -/
def Delivered (served : List Input) (last : Sys Engine) : Prop :=
  documents last.app.log =
    documents sys.app.log ++ (messages.take (newlines served)).map ServerMessage.doc

/-- Every initial part of the reads is served, and what it completes delivered. -/
def Delivers (reads : List Input) : Prop :=
  ∀ served, served <+: reads →
    ∃ last, Machine.runPartial (step env) sys served = some last ∧
      Delivered env sys messages served last

/-- The state `last` is reached with everything delivered that `served`
completes, and `input` is the next of the reads. -/
structure Due (reads served : List Input) (input : Input) (last : Sys Engine) : Prop where
  next : served ++ [input] <+: reads
  run : Machine.runPartial (step env) sys served = some last
  delivered : Delivered env sys messages served last

variable {env sys messages}

theorem delivered_cons_iff {input : Input} {served : List Input} {next last : Sys Engine}
    (first : Delivered env sys messages [input] next) :
    Delivered env sys messages (input :: served) last ↔
      Delivered env next (messages.drop (newlines [input])) served last := by
  unfold Delivered at *
  rw [first, newlines_cons, List.take_add, List.map_append, List.append_assoc]

theorem delivers_cons_iff {input : Input} {reads : List Input} :
    Delivers env sys messages (input :: reads) ↔
      ∃ next, step env sys input = some next ∧ Delivered env sys messages [input] next ∧
        Delivers env next (messages.drop (newlines [input])) reads := by
  have run := Machine.runPartial_cons (step env) sys input
  constructor
  · intro delivers
    obtain ⟨next, ran, first⟩ := delivers [input] ⟨reads, rfl⟩
    have stepped : step env sys input = some next := by
      cases taken : step env sys input with
      | none => simp [run, taken] at ran
      | some other => simpa [run, taken, Machine.runPartial] using ran
    refine ⟨next, stepped, first, fun served initial => ?_⟩
    obtain ⟨last, ran, delivered⟩ :=
      delivers (input :: served) (List.cons_prefix_cons.mpr ⟨rfl, initial⟩)
    rw [run, stepped] at ran
    exact ⟨last, ran, (delivered_cons_iff first).mp delivered⟩
  · rintro ⟨next, stepped, first, delivers⟩ served initial
    cases served with
    | nil => exact ⟨sys, rfl, by simp [Delivered, newlines]⟩
    | cons head served =>
        obtain ⟨rfl, tailInitial⟩ := List.cons_prefix_cons.mp initial
        obtain ⟨last, ran, delivered⟩ := delivers served tailInitial
        refine ⟨last, ?_, (delivered_cons_iff first).mpr delivered⟩
        rw [run, stepped]
        exact ran

theorem delivers_cons_iff_of_step {input : Input} {reads : List Input} {next : Sys Engine}
    (stepped : step env sys input = some next)
    (first : Delivered env sys messages [input] next) :
    Delivers env sys messages (input :: reads) ↔
      Delivers env next (messages.drop (newlines [input])) reads := by
  rw [delivers_cons_iff]
  constructor
  · rintro ⟨other, same, -, delivers⟩
    rw [stepped] at same
    cases same
    exact delivers
  · exact fun delivers => ⟨next, stepped, first, delivers⟩

theorem Due.cases {first input : Input} {reads served : List Input} {last : Sys Engine}
    (due : Due env sys messages (first :: reads) served input last) :
    (served = [] ∧ input = first ∧ last = sys) ∨
      ∃ rest, served = first :: rest ∧ rest ++ [input] <+: reads := by
  obtain ⟨initial, run, -⟩ := due
  cases served with
  | nil =>
      cases run
      exact .inl ⟨rfl, (List.cons_prefix_cons.mp initial).1, rfl⟩
  | cons head rest =>
      obtain ⟨rfl, later⟩ := List.cons_prefix_cons.mp initial
      exact .inr ⟨rest, rfl, later⟩

theorem Due.pair {first second input : Input} {served : List Input} {last : Sys Engine}
    (due : Due env sys messages [first, second] served input last) :
    (served = [] ∧ input = first ∧ last = sys) ∨
      (served = [first] ∧ input = second ∧ step env sys first = some last) := by
  have run := due.run
  rcases due.cases with atFirst | ⟨rest, rfl, later⟩
  · exact .inl atFirst
  · cases rest with
    | nil =>
        rw [Machine.runPartial_cons] at run
        obtain ⟨next, stepped, ended⟩ := Option.bind_eq_some_iff.mp run
        cases ended
        exact .inr ⟨rfl, (List.cons_prefix_cons.mp later).1, stepped⟩
    | cons head rest =>
        have beyond := later.length_le
        simp at beyond

theorem Due.after {first input : Input} {reads served : List Input} {next last : Sys Engine}
    (stepped : step env sys first = some next)
    (firstDelivered : Delivered env sys messages [first] next)
    (due : Due env next (messages.drop (newlines [first])) reads served input last) :
    Due env sys messages (first :: reads) (first :: served) input last where
  next := List.cons_prefix_cons.mpr ⟨rfl, due.next⟩
  run := by
    rw [Machine.runPartial_cons, stepped]
    exact due.run
  delivered := (delivered_cons_iff firstDelivered).mpr due.delivered

/-! ## Framing -/

theorem texts_clean {rapidjson : RapidJson} (messages : List (ServerMessage rapidjson)) :
    ∀ text ∈ messages.map ServerMessage.text, 10 ∉ text := by
  simp only [List.mem_map]
  rintro _ ⟨message, -, rfl⟩
  exact message.noNewline

theorem stream_first {rapidjson : RapidJson} {messages : List (ServerMessage rapidjson)}
    {line rest : Bytes} (clean : 10 ∉ line) (division : line ++ 10 :: rest = stream messages) :
    ∃ message others, messages = message :: others ∧ message.text = line ∧
      rest = stream others := by
  obtain ⟨later, texts, restDivision⟩ := Lines.joined_first (texts_clean messages) clean division
  obtain ⟨message, others, rfl, text, rfl⟩ := List.map_eq_cons_iff.mp texts
  exact ⟨message, others, rfl, text, restDivision⟩

theorem parse_lines {rapidjson : RapidJson} (rejects : rapidjson.RejectsTrailing)
    {messages : List (ServerMessage rapidjson)} {lines rest : Bytes} (several : 10 ∈ lines)
    (division : lines ++ 10 :: rest = stream messages) :
    rapidjson.parseInsitu (cString lines) = none := by
  have noNul : 0 ∉ lines := by
    intro member
    have inStream : 0 ∈ stream messages := division ▸ List.mem_append_left _ member
    rcases Lines.mem_joined inStream with newline | ⟨text, isText, inText⟩
    · cases newline
    · obtain ⟨message, -, rfl⟩ := List.mem_map.mp isText
      exact message.noNul inText
  obtain ⟨first, second, later, tail, texts, rfl⟩ :=
    Lines.joined_lines (texts_clean messages) several division
  obtain ⟨message, others, rfl, rfl, more⟩ := List.map_eq_cons_iff.mp texts
  obtain ⟨another, -, -, rfl, -⟩ := List.map_eq_cons_iff.mp more
  have unblank : ∃ byte ∈ another.text, isBlank byte = false := by
    by_contra blank
    have failed := rejects.blank another.text fun byte member => by
      simpa using fun isText => blank ⟨byte, member, isText⟩
    rw [another.parses] at failed
    cases failed
  obtain ⟨byte, member, isText⟩ := unblank
  rw [cString_of_not_mem noNul]
  refine rejects.trailing _ _ _ message.parses rfl ⟨byte, ?_, isText⟩ ?_
  · exact .tail _ (List.mem_append_left _ member)
  · exact fun inRest => noNul (List.mem_append_right _ inRest)

/-- A read that completes several messages delivers none of them. -/
theorem several_not_delivered (plain : env.useTls = false)
    (rejects : env.config.rapidjson.RejectsTrailing) {unreadBytes later : Bytes} {input : Input}
    {reads : List Input} (unread : Unread sys unreadBytes) (clean : 10 ∉ unreadBytes)
    (division : (unreadBytes ++ input.chunk) ++ later = stream messages)
    (read : input.event = .read input.chunk) (enabled : Enabled sys input.event)
    (several : 1 < newlines [input]) : ¬ Delivers env sys messages (input :: reads) := by
  intro delivers
  have count := newlines_single input
  have member : 10 ∈ unreadBytes ++ input.chunk :=
    List.mem_append_right _ (List.count_pos_iff.mp (by omega))
  obtain ⟨lines, rest, split, restClean⟩ := Lines.exists_last member
  have counted : (unreadBytes ++ input.chunk).count 10 = newlines [input] := by
    rw [List.count_append, List.count_eq_zero.mpr clean, count, Nat.zero_add]
  rw [split, List.count_append, List.count_cons_self, List.count_eq_zero.mpr restClean]
    at counted
  have linesSeveral : 10 ∈ lines := List.count_pos_iff.mp (by omega)
  rw [split, List.append_assoc, List.cons_append] at division
  have fails := parse_lines rejects linesSeveral division
  obtain ⟨next, stepped, delivered, -⟩ := delivers_cons_iff.mp delivers
  have same := step_unparsed plain unread read enabled split restClean fails stepped
  have none : messages = [] := by
    rw [Delivered, same] at delivered
    have empty : messages.take (newlines [input]) = [] := by simpa using delivered
    exact (List.take_eq_nil_iff.mp empty).resolve_left (by omega)
  subst none
  simp [stream, Lines.joined] at division

/-- A read is served right, and what it leaves unread begins the stream of the
messages that are still to come. -/
structure Advances (env : Env Engine) (sys : Sys Engine)
    (messages : List (ServerMessage env.config.rapidjson)) (input : Input) (later : Bytes)
    (next : Sys Engine) (left : Bytes) : Prop where
  stepped : step env sys input = some next
  delivered : Delivered env sys messages [input] next
  unread : Unread next left
  clean : 10 ∉ left
  division : left ++ later = stream (messages.drop (newlines [input]))

/-- The message goes on. -/
theorem advances_noLine (plain : env.useTls = false) {unreadBytes later : Bytes} {input : Input}
    (unread : Unread sys unreadBytes) (clean : 10 ∉ unreadBytes)
    (division : (unreadBytes ++ input.chunk) ++ later = stream messages)
    (read : input.event = .read input.chunk) (enabled : Enabled sys input.event)
    (none : newlines [input] = 0) :
    ∃ next, Advances env sys messages input later next (unreadBytes ++ input.chunk) := by
  have partialClean : 10 ∉ unreadBytes ++ input.chunk := by
    simpa [clean] using List.count_eq_zero.mp (newlines_single input ▸ none)
  obtain ⟨next, stepped, unread, app⟩ := step_noLine plain unread read enabled partialClean
  have log : next.app.log = sys.app.log := by
    rw [app]
    rfl
  refine ⟨next, stepped, ?_, unread, partialClean, ?_⟩
  · simp [Delivered, none, log]
  · simpa [none] using division

/-- The first message is complete, and the next one begins. -/
theorem advances_line (plain : env.useTls = false) {unreadBytes later : Bytes} {input : Input}
    (unread : Unread sys unreadBytes) (clean : 10 ∉ unreadBytes)
    (division : (unreadBytes ++ input.chunk) ++ later = stream messages)
    (read : input.event = .read input.chunk) (enabled : Enabled sys input.event)
    (accepted : Accepted env.config (sys.answering input).app
      ((messages.take (newlines [input])).map ServerMessage.doc))
    (one : newlines [input] = 1) :
    ∃ next rest, Advances env sys messages input later next rest := by
  obtain ⟨line, rest, split, lineClean, restClean⟩ :=
    Lines.exists_only (newlines_single input ▸ one)
  have whole : unreadBytes ++ input.chunk = (unreadBytes ++ line) ++ 10 :: rest := by
    rw [split, List.append_assoc]
  rw [whole, List.append_assoc, List.cons_append] at division
  obtain ⟨message, others, rfl, text, restDivision⟩ :=
    stream_first (by simp [clean, lineClean]) division
  rw [← text] at whole
  obtain ⟨app, processed, -⟩ :
      Accepted env.config (sys.answering input).app [message.doc] := by
    simpa [one] using accepted
  obtain ⟨next, stepped, unread, rfl⟩ := step_accepted plain unread read enabled whole
    message.noNul restClean message.parses processed
  refine ⟨next, rest, stepped, ?_, unread, restClean, by simpa [one] using restDivision⟩
  have handed := documents_processJsonDoc env.config message.doc processed
  rw [Delivered, one]
  exact handed

/-- Framing from a state with an unread part of the first message. The induction
is on the reads; what a read leaves unread is part of a message again. -/
theorem delivers_iff_of_unread (plain : env.useTls = false)
    (rejects : env.config.rapidjson.RejectsTrailing) (reads : List Input) {unreadBytes : Bytes}
    (unread : Unread sys unreadBytes) (clean : 10 ∉ unreadBytes)
    (division : unreadBytes ++ reads.flatMap Input.chunk = stream messages)
    (areReads : ∀ input ∈ reads, input.event = .read input.chunk)
    (offered : ∀ served input last, Due env sys messages reads served input last →
      Enabled last input.event)
    (noneRejected : ∀ served input last, Due env sys messages reads served input last →
      Accepted env.config (last.answering input).app
        (((messages.drop (newlines served)).take (newlines [input])).map ServerMessage.doc)) :
    Delivers env sys messages reads ↔ ∀ input ∈ reads, newlines [input] ≤ 1 := by
  induction reads generalizing sys messages unreadBytes with
  | nil =>
      refine ⟨fun _ _ member => (nomatch member), fun _ served initial => ?_⟩
      rw [List.prefix_nil.mp initial]
      exact ⟨sys, rfl, by simp [Delivered, newlines]⟩
  | cons input reads inductionHypothesis =>
      have due : Due env sys messages (input :: reads) [] input sys :=
        ⟨⟨reads, rfl⟩, rfl, by simp [Delivered, newlines]⟩
      have enabled := offered [] input sys due
      have accepted := noneRejected [] input sys due
      have read := areReads input (.head _)
      rw [List.flatMap_cons, ← List.append_assoc] at division
      -- once the first read is served right, the rest is the induction hypothesis
      have continued : ∀ {next : Sys Engine} {left : Bytes},
          Advances env sys messages input (reads.flatMap Input.chunk) next left →
          newlines [input] ≤ 1 →
          (Delivers env sys messages (input :: reads) ↔
            ∀ other ∈ input :: reads, newlines [other] ≤ 1) := by
        intro next left ⟨stepped, first, unread, clean, division⟩ few
        rw [delivers_cons_iff_of_step stepped first, List.forall_mem_cons, and_iff_right few]
        apply inductionHypothesis unread clean division
        · exact fun other member => areReads other (.tail _ member)
        · exact fun served other last due => offered _ other last (due.after stepped first)
        · intro served other last due
          have later := noneRejected _ other last (due.after stepped first)
          rwa [newlines_cons input served, ← List.drop_drop] at later
      rcases Nat.lt_trichotomy (newlines [input]) 1 with none | one | several
      · obtain ⟨next, advances⟩ :=
          advances_noLine plain unread clean division read enabled (by omega)
        exact continued advances none.le
      · obtain ⟨next, rest, advances⟩ :=
          advances_line plain unread clean division read enabled accepted one
        exact continued advances one.le
      · -- two messages are taken for one text
        have wrong : ¬ newlines [input] ≤ 1 := by omega
        refine iff_of_false (fun delivers => ?_) fun few => wrong (few input (.head _))
        exact several_not_delivered plain rejects unread clean division read enabled (by omega)
          delivers

/-- However the stream of the server is cut into reads, the documents handed over
are those of the messages, once each and in order, exactly if no read completes
two messages. -/
theorem framing_iff (env : Env Engine) (plain : env.useTls = false)
    (rejects : env.config.rapidjson.RejectsTrailing) (sys : Sys Engine)
    (nothingUnread : sys.net.recvPos = 0) (messages : List (ServerMessage env.config.rapidjson))
    (reads : List Input) (areReads : ∀ input ∈ reads, input.event = .read input.chunk)
    (division : reads.flatMap Input.chunk = stream messages)
    (offered : ∀ served input last, Due env sys messages reads served input last →
      Enabled last input.event)
    (noneRejected : ∀ served input last, Due env sys messages reads served input last →
      Accepted env.config (last.answering input).app
        (((messages.drop (newlines served)).take (newlines [input])).map ServerMessage.doc)) :
    Delivers env sys messages reads ↔ ∀ input ∈ reads, newlines [input] ≤ 1 := by
  have unread : Unread sys [] := ⟨nothingUnread, by simp [Buffer.slice], by simp⟩
  exact delivers_iff_of_unread plain rejects reads unread (by simp) division areReads offered
    noneRejected

end Streams

/-! ## A server that sends the same job twice -/

def acceptedDecidable (config : Config) :
    (app : App) → (docs : List Value) → Decidable (Accepted config app docs)
  | _, [] => .isTrue trivial
  | app, doc :: docs =>
      match processed : (processJsonDoc config doc).run app with
      | .ok (true, next) =>
          match acceptedDecidable config next docs with
          | .isTrue rest => .isTrue ⟨next, processed, rest⟩
          | .isFalse rest => .isFalse fun ⟨_, same, accepted⟩ => by
              rw [processed] at same
              cases same
              exact rest accepted
      | .ok (false, _) => .isFalse fun ⟨_, same, _⟩ => by
          rw [processed] at same
          cases same
      | .error _ => .isFalse fun ⟨_, same, _⟩ => by
          rw [processed] at same
          cases same

instance (config : Config) (app : App) (docs : List Value) : Decidable (Accepted config app docs) :=
  acceptedDecidable config app docs

def sampleMessage : ServerMessage Env.sample.config.rapidjson where
  text := JobMessage.sample.text
  members := [(ascii "method", .string (ascii "job")), (ascii "params", JobMessage.sample.params)]
  parses := RapidJson.parseInsitu_ofTexts _ _ _
  noNewline := by decide +kernel
  noNul := by decide +kernel

def loggedIn : Sys Unit :=
  Machine.execute (step .sample) .start (sampleSession.take 4)

/-- The first message and a part of the second one. -/
def firstPart : Input :=
  (Event.read (JobMessage.sample.text ++ [10] ++ JobMessage.sample.text.take 40)).at 20030

def secondPart : Input :=
  (Event.read (JobMessage.sample.text.drop 40 ++ [10])).at 20040

def bothParts : Input :=
  (Event.read (JobMessage.sample.text ++ [10] ++ JobMessage.sample.text ++ [10])).at 20030

theorem sample_rejectsTrailing : Env.sample.config.rapidjson.RejectsTrailing :=
  RapidJson.ofTexts_rejectsTrailing _ (by decide +kernel)

theorem loggedIn_reachable : (machine .sample).Reachable loggedIn ∧ loggedIn.net.recvPos = 0 := by
  have executed := Machine.execute_reachable Sys.start_initial (step .sample)
    (sampleSession.take 4) (fun sys => sys.net.recvPos = 0) (by decide +kernel)
  unfold loggedIn
  generalize Machine.execute (step Env.sample) Sys.start (sampleSession.take 4) = last at *
  exact executed

theorem framing_firstPart_secondPart :
    Delivers .sample loggedIn [sampleMessage, sampleMessage] [firstPart, secondPart] := by
  obtain ⟨-, nothingUnread⟩ := loggedIn_reachable
  have areReads : ∀ input ∈ [firstPart, secondPart], input.event = .read input.chunk := by
    simp only [List.forall_mem_cons]
    exact ⟨rfl, rfl, fun _ member => nomatch member⟩
  have division : [firstPart, secondPart].flatMap Input.chunk =
      stream [sampleMessage, sampleMessage] := by decide +kernel
  have first : Enabled loggedIn firstPart.event ∧
      Accepted Env.sample.config (loggedIn.answering firstPart).app [sampleMessage.doc] := by
    decide +kernel
  have second : ∀ last ∈ step .sample loggedIn firstPart, Enabled last secondPart.event ∧
      Accepted Env.sample.config (last.answering secondPart).app [sampleMessage.doc] := by
    decide +kernel
  have counts : newlines [firstPart] = 1 ∧ newlines [secondPart] = 1 := by decide +kernel
  generalize loggedIn = sys, firstPart = former, secondPart = latter at *
  refine (framing_iff .sample rfl sample_rejectsTrailing sys nothingUnread
    [sampleMessage, sampleMessage] [former, latter] areReads division
    (fun served input last due => ?_) (fun served input last due => ?_)).mpr ?_
  · rcases due.pair with ⟨rfl, rfl, rfl⟩ | ⟨rfl, rfl, stepped⟩
    · exact first.1
    · exact (second last stepped).1
  · rcases due.pair with ⟨rfl, rfl, rfl⟩ | ⟨rfl, rfl, stepped⟩
    · rw [counts.1]
      exact first.2
    · rw [counts.1, counts.2]
      exact (second last stepped).2
  · simp [counts]

/-- The same bytes in one read: nothing is rejected and everything fits, but no
job is delivered. -/
theorem framing_fails_bothParts :
    ∃ sys, (machine .sample).Reachable sys ∧ sys.net.recvPos = 0 ∧
      bothParts.event = .read bothParts.chunk ∧
      bothParts.chunk = stream [sampleMessage, sampleMessage] ∧ Enabled sys bothParts.event ∧
      Accepted Env.sample.config (sys.answering bothParts).app
        [sampleMessage.doc, sampleMessage.doc] ∧
      ¬ Delivers .sample sys [sampleMessage, sampleMessage] [bothParts] := by
  obtain ⟨reachable, nothingUnread⟩ := loggedIn_reachable
  have executed : bothParts.chunk = stream [sampleMessage, sampleMessage] ∧
      Enabled loggedIn bothParts.event ∧
      Accepted Env.sample.config (loggedIn.answering bothParts).app
        [sampleMessage.doc, sampleMessage.doc] ∧
      newlines [bothParts] = 2 := by decide +kernel
  obtain ⟨division, enabled, accepted, count⟩ := executed
  generalize loggedIn = sys at *
  have unread : Unread sys [] := ⟨nothingUnread, by simp [Buffer.slice], by simp⟩
  refine ⟨sys, reachable, nothingUnread, rfl, division, enabled, accepted, ?_⟩
  exact several_not_delivered rfl sample_rejectsTrailing unread (by simp)
    ((List.append_nil _).trans division) rfl enabled (by omega)

end EpicMiner.EventLoop
