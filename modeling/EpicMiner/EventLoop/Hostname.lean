import EpicMiner.EventLoop.Framing

/-!
Owns `set_hostname`: how an address string is cut in place into host and port. The
string is copied to a buffer on the stack, of which the bytes behind it hold anything.
-/

namespace EpicMiner.EventLoop

open EpicMiner.Library
open EpicMiner.Data

/-- The members `host` and `port` of `net_interface`. -/
structure Address where
  host : Bytes
  port : Bytes
deriving DecidableEq

/-- What is left behind by a call: its answer, the text given to `notify_error`, and the
members. -/
structure HostnameResult where
  good : Bool
  notified : Option Bytes
  address : Address
deriving DecidableEq

/-- What a 32-bit `int` keeps of a `strlen`. Compared with a `size_t`, a negative value is
above every bound, as is its residue. -/
def intLength (text : Bytes) : Nat :=
  text.length % 4294967296

/-- `net_interface::set_hostname`. The pointers `host` and `port` are offsets into the
buffer `ip_port`. -/
def setHostname (ipPort : Buffer 256) (ipPortStr : Bytes) (address : Address) :
    HostnameResult :=
  let text := cString ipPortStr
  let len := intLength text
  if 256 ≤ len then ⟨false, some (ascii "Hostname too long"), address⟩
  else
    let ipPort := (ipPort.write 0 (text.take len)).write len [0]
    -- strrchr
    match myMemrchr (cString ipPort.cells) 58 (cString ipPort.cells).length with
    | none => ⟨false, some (ascii "Pool address format is hostname:port"), address⟩
    | some cl =>
        let port := cl + 1
        let ipPort := ipPort.write cl [0]
        let host := 0
        let len := (cString (ipPort.cells.drop host)).length
        if ipPort.cells[host]? = some 91 ∧ ipPort.cells[host + len - 1]? = some 93 then
          let host := host + 1
          let ipPort := ipPort.write (host + len - 1) [0]
          ⟨true, none, ⟨cString (ipPort.cells.drop host), cString (ipPort.cells.drop port)⟩⟩
        else ⟨true, none, ⟨cString (ipPort.cells.drop host), cString (ipPort.cells.drop port)⟩⟩

/-! ## What the call is for -/

/-- The text stands between brackets. -/
def Bracketed (host : Bytes) : Prop :=
  host.head? = some 91 ∧ host.getLast? = some 93

instance (host : Bytes) : Decidable (Bracketed host) :=
  inferInstanceAs (Decidable (_ ∧ _))

/-- The text before the port without the brackets of an IPv6 literal. -/
def unbracketed (host : Bytes) : Bytes :=
  if Bracketed host then host.tail.dropLast else host

/-- An address string of less than 256 bytes with a colon is taken apart at the last one,
and any other string is refused. -/
structure SetsHostname (text : Bytes) (address : Address) (result : HostnameResult) : Prop where
  good : result.good = true ↔ text.length < 256 ∧ 58 ∈ text
  set : result.good = true → ∀ host port, text = host ++ 58 :: port → 58 ∉ port →
    result.address = ⟨unbracketed host, port⟩
  kept : result.good = false → result.address = address

/-! ## Strings in a buffer -/

theorem writeAt_byte (before after : Bytes) (old byte : UInt8) :
    writeAt (before ++ old :: after) before.length [byte] = before ++ byte :: after := by
  rw [writeAt_eq _ _ _ (by simp)]
  simp

/-- The buffer after the copy. -/
theorem cells_copied (ipPort : Buffer 256) {text : Bytes} (short : text.length < 256) :
    ∃ rest, ((ipPort.write 0 text).write text.length [0]).cells = text ++ 0 :: rest := by
  have sized := ipPort.sized
  have copied : (ipPort.write 0 text).cells = text ++ ipPort.cells.drop text.length := by
    rw [Buffer.cells_write, writeAt_eq _ _ _ (by omega)]
    simp
  match behind : ipPort.cells.drop text.length with
  | [] =>
      have length := congrArg List.length behind
      simp at length
      omega
  | old :: rest =>
      refine ⟨rest, ?_⟩
      rw [Buffer.cells_write, copied, behind]
      exact writeAt_byte text rest old 0

theorem last_unique {before after before' after' : Bytes} {c : UInt8}
    (same : before ++ c :: after = before' ++ c :: after') (clean : c ∉ after)
    (clean' : c ∉ after') : before = before' ∧ after = after' := by
  have found := myMemrchr_last before clean
  rw [same, myMemrchr_last before' clean'] at found
  obtain ⟨isBefore, rest⟩ := List.append_inj same (Option.some.inj found).symm
  exact ⟨isBefore, (List.cons.inj rest).2⟩

/-! ## What the code does -/

/-- The first and the last byte of the host, read in the buffer. -/
theorem bracketed_iff (host rest : Bytes) :
    (host ++ 0 :: rest)[0]? = some 91 ∧ (host ++ 0 :: rest)[host.length - 1]? = some 93 ↔
      Bracketed host := by
  cases host with
  | nil => simp [Bracketed]
  | cons first others =>
      have last : ((first :: others) ++ 0 :: rest)[(first :: others).length - 1]? =
          (first :: others).getLast? := by
        rw [List.getElem?_append_left (by simp), List.getLast?_eq_getElem?]
      rw [last]
      simp [Bracketed]

theorem length_taken (text : Bytes) : (text.take (intLength text)).length = intLength text := by
  rw [List.length_take]
  exact Nat.min_eq_left (Nat.mod_le ..)

/-- The buffer after the colon has been replaced. -/
theorem cells_cut (ipPort : Buffer 256) {host port : Bytes}
    (short : (host ++ 58 :: port).length < 256) :
    ∃ rest, ((((ipPort.write 0 (host ++ 58 :: port)).write (host ++ 58 :: port).length [0]).write
      host.length [0]).cells = host ++ 0 :: (port ++ 0 :: rest)) := by
  obtain ⟨rest, copied⟩ := cells_copied ipPort short
  refine ⟨rest, ?_⟩
  rw [Buffer.cells_write, copied, List.append_assoc]
  exact writeAt_byte host _ 58 0

/-- In brackets, the second one is kept: the code writes over the NUL behind it. -/
theorem setHostname_eq (ipPort : Buffer 256) {ipPortStr : Bytes} (address : Address)
    {host port : Bytes} (short : intLength (cString ipPortStr) < 256)
    (split : (cString ipPortStr).take (intLength (cString ipPortStr)) = host ++ 58 :: port)
    (clean : 58 ∉ port) :
    setHostname ipPort ipPortStr address =
      ⟨true, none, ⟨if Bracketed host then host.tail else host, port⟩⟩ := by
  have plain : 0 ∉ host ++ 58 :: port := fun member => by
    rw [← split] at member
    simpa using List.mem_takeWhile_imp (List.mem_of_mem_take member)
  have hostPlain : 0 ∉ host := fun member => plain (List.mem_append_left _ member)
  have portPlain : 0 ∉ port := fun member => plain (List.mem_append_right _ (.tail _ member))
  have len : intLength (cString ipPortStr) = (host ++ 58 :: port).length := by
    rw [← split, length_taken]
  rw [len] at short
  obtain ⟨rest, copied⟩ := cells_copied ipPort short
  obtain ⟨rest, cut⟩ := cells_cut ipPort short
  have portOf : cString ((host ++ 0 :: (port ++ 0 :: rest)).drop (host.length + 1)) = port := by
    rw [show host ++ 0 :: (port ++ 0 :: rest) = (host ++ [0]) ++ (port ++ 0 :: rest) by simp,
      List.drop_left' (by simp), cString_append_nul, cString_of_not_mem portPlain]
  unfold setHostname
  simp only
  rw [split, len, if_neg (by omega), copied, cString_append_nul,
    cString_of_not_mem plain, myMemrchr_last host clean]
  simp only [cut, List.drop_zero, cString_append_nul, cString_of_not_mem hostPlain, Nat.zero_add,
    bracketed_iff]
  split_ifs with bracketed
  · -- The write at index `host.length` finds the NUL there already.
    have same : 1 + host.length - 1 = host.length := by omega
    rw [same, Buffer.cells_write, cut, writeAt_byte, portOf]
    cases host with
    | nil => simp [Bracketed] at bracketed
    | cons first others =>
        have tailPlain : 0 ∉ others := fun member => hostPlain (.tail _ member)
        simp [cString_append_nul, cString_of_not_mem tailPlain]
  · rw [portOf]

/-- Too long or without a colon, the string is refused. -/
theorem setHostname_refused (ipPort : Buffer 256) {ipPortStr : Bytes} (address : Address)
    (refused : intLength (cString ipPortStr) < 256 →
      58 ∉ (cString ipPortStr).take (intLength (cString ipPortStr))) :
    (setHostname ipPort ipPortStr address).good = false ∧
      (setHostname ipPort ipPortStr address).address = address := by
  unfold setHostname
  simp only
  split_ifs with long
  · exact ⟨rfl, rfl⟩
  · have short : intLength (cString ipPortStr) < 256 := by omega
    have plain : 0 ∉ (cString ipPortStr).take (intLength (cString ipPortStr)) := fun member => by
      simpa using List.mem_takeWhile_imp (List.mem_of_mem_take member)
    have len := length_taken (cString ipPortStr)
    obtain ⟨rest, copied⟩ := cells_copied ipPort (len.trans_lt short)
    rw [len] at copied
    rw [copied, cString_append_nul, cString_of_not_mem plain, myMemrchr_none (refused short)]
    exact ⟨rfl, rfl⟩

/-! ## Where the code does it -/

/-- The strings that are taken apart wrongly: those between brackets, and those so long that
their length does not fit. -/
def Misread (text : Bytes) : Prop :=
  intLength text < 256 ∧ ∃ host port, text.take (intLength text) = host ++ 58 :: port ∧
    58 ∉ port ∧ (intLength text ≠ text.length ∨ Bracketed host)

theorem bracketed_iff_literal {host : Bytes} :
    Bracketed host ↔ ∃ literal, host = 91 :: (literal ++ [93]) := by
  constructor
  · rintro ⟨opens, closes⟩
    match host with
    | [] => simp at opens
    | [only] =>
        simp only [List.head?_cons, List.getLast?_singleton, Option.some.injEq] at opens closes
        exact absurd (opens.symm.trans closes) (by decide)
    | first :: second :: others =>
        simp only [List.head?_cons, Option.some.injEq] at opens
        rw [List.getLast?_cons_cons, List.getLast?_eq_some_iff] at closes
        obtain ⟨literal, inside⟩ := closes
        exact ⟨literal, by rw [opens, inside]⟩
  · rintro ⟨literal, rfl⟩
    exact ⟨rfl, by rw [← List.cons_append, List.getLast?_concat]⟩

theorem unbracketed_literal (literal : Bytes) :
    unbracketed (91 :: (literal ++ [93])) = literal := by
  have bracketed : Bracketed (91 :: (literal ++ [93])) := bracketed_iff_literal.mpr ⟨literal, rfl⟩
  rw [unbracketed, if_pos bracketed, List.tail_cons, List.dropLast_concat]

theorem unbracketed_of_not {host : Bytes} (bare : ¬Bracketed host) : unbracketed host = host :=
  if_neg bare

theorem not_misread_of_setsHostname {ipPort : Buffer 256} {ipPortStr : Bytes}
    {address : Address}
    (sets : SetsHostname (cString ipPortStr) address (setHostname ipPort ipPortStr address)) :
    ¬Misread (cString ipPortStr) := by
  rintro ⟨short, host, port, split, clean, wrong⟩
  have result := setHostname_eq ipPort address short split clean
  rw [result] at sets
  obtain ⟨fits, -⟩ := sets.good.mp rfl
  have whole : intLength (cString ipPortStr) = (cString ipPortStr).length :=
    Nat.mod_eq_of_lt (by omega)
  rw [whole, List.take_length] at split
  have bracketed : Bracketed host := wrong.resolve_left (fun other => other whole)
  obtain ⟨literal, rfl⟩ := bracketed_iff_literal.mp bracketed
  have given := sets.set rfl _ _ split clean
  rw [if_pos bracketed, unbracketed_literal] at given
  have length := congrArg (fun found : Address => found.host.length) given
  simp at length

theorem setsHostname_of_not_misread {ipPort : Buffer 256} {ipPortStr : Bytes}
    {address : Address} (read : ¬Misread (cString ipPortStr)) :
    SetsHostname (cString ipPortStr) address (setHostname ipPort ipPortStr address) := by
  by_cases taken : intLength (cString ipPortStr) < 256 ∧
      58 ∈ (cString ipPortStr).take (intLength (cString ipPortStr))
  · obtain ⟨short, colon⟩ := taken
    obtain ⟨host, port, split, clean⟩ := Lines.exists_last colon
    have whole : intLength (cString ipPortStr) = (cString ipPortStr).length := by
      by_contra other
      exact read ⟨short, host, port, split, clean, .inl other⟩
    have bare : ¬Bracketed host := fun bracketed =>
      read ⟨short, host, port, split, clean, .inr bracketed⟩
    rw [setHostname_eq ipPort address short split clean, if_neg bare]
    rw [whole] at short split colon
    rw [List.take_length] at split colon
    refine ⟨iff_of_true rfl ⟨short, colon⟩, fun _ host' port' split' clean' => ?_, fun bad => ?_⟩
    · obtain ⟨rfl, rfl⟩ := last_unique (split.symm.trans split') clean clean'
      rw [unbracketed_of_not bare]
    · cases bad
  · obtain ⟨bad, kept⟩ := setHostname_refused ipPort address
      (fun short colon => taken ⟨short, colon⟩)
    refine ⟨iff_of_false (by simp [bad]) ?_, fun good => ?_, fun _ => kept⟩
    · rintro ⟨short, colon⟩
      have whole : intLength (cString ipPortStr) = (cString ipPortStr).length :=
        Nat.mod_eq_of_lt (by omega)
      exact taken ⟨by omega, by rwa [whole, List.take_length]⟩
    · rw [bad] at good
      cases good

/-- The buffer's old bytes play no part. -/
theorem setsHostname_iff (ipPort : Buffer 256) (ipPortStr : Bytes) (address : Address) :
    SetsHostname (cString ipPortStr) address (setHostname ipPort ipPortStr address) ↔
      ¬Misread (cString ipPortStr) :=
  ⟨not_misread_of_setsHostname, setsHostname_of_not_misread⟩

/-- The closing bracket stays behind the host. -/
theorem ipv6Literal_not_setsHostname :
    setHostname (Buffer.zeros 256) (ascii "[::1]:3333") ⟨[], []⟩ =
        ⟨true, none, ⟨ascii "::1]", ascii "3333"⟩⟩ ∧
      ¬SetsHostname (cString (ascii "[::1]:3333")) ⟨[], []⟩
        (setHostname (Buffer.zeros 256) (ascii "[::1]:3333") ⟨[], []⟩) := by
  have runs : setHostname (Buffer.zeros 256) (ascii "[::1]:3333") ⟨[], []⟩ =
      ⟨true, none, ⟨ascii "::1]", ascii "3333"⟩⟩ := by
    decide +kernel
  refine ⟨runs, fun sets => ?_⟩
  rw [runs] at sets
  have given := sets.set rfl (ascii "[::1]") (ascii "3333") (by decide) (by decide)
  exact absurd given (by decide)

end EpicMiner.EventLoop
