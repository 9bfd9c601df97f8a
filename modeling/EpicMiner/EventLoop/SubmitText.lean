import EpicMiner.Data.JsonParts
import EpicMiner.EventLoop.Dispatch
import EpicMiner.EventLoop.SendCalls

/-!
Owns what a submit line says as a JSON text. Both ids are put into the line as they
are stored, up to the first NUL and without escapes.
-/

namespace EpicMiner.EventLoop

open EpicMiner.Library
open EpicMiner.Data
open EpicMiner.Data.JsonText

/-! ## Hex -/

def hexDigitOf (value : Nat) : UInt8 :=
  if value < 10 then (48 + value).toUInt8 else (87 + value).toUInt8

/-- Two lower-case digits for each byte, the high one first. -/
def hexText (bytes : Bytes) : Bytes :=
  bytes.flatMap fun byte => [hexDigitOf (byte.toNat / 16), hexDigitOf (byte.toNat % 16)]

theorem hexDigitOf_plain {value : Nat} (small : value < 16) :
    32 ≤ hexDigitOf value ∧ hexDigitOf value ≠ 34 ∧ hexDigitOf value ≠ 92 := by
  have every : ∀ value < 16,
      32 ≤ hexDigitOf value ∧ hexDigitOf value ≠ 34 ∧ hexDigitOf value ≠ 92 := by decide
  exact every value small

theorem hexText_plain (bytes : Bytes) : Plain (hexText bytes) := by
  intro digit member
  obtain ⟨byte, -, place⟩ := List.mem_flatMap.mp member
  have bound := byte.toNat_lt
  rcases List.mem_pair.mp place with rfl | rfl
  · exact hexDigitOf_plain (by omega)
  · exact hexDigitOf_plain (by omega)

theorem hfBin2hex_eq (byte : UInt8) :
    hfBin2hex (byte >>> (4 : UInt8)) = hexDigitOf (byte.toNat / 16) ∧
      hfBin2hex (byte &&& 15) = hexDigitOf (byte.toNat % 16) := by
  have every : ∀ value < 256,
      hfBin2hex (value.toUInt8 >>> (4 : UInt8)) = hexDigitOf (value / 16) ∧
        hfBin2hex (value.toUInt8 &&& 15) = hexDigitOf (value % 16) := by decide +kernel
  have same : byte.toNat.toUInt8 = byte := UInt8.ofNat_toNat
  have digits := every byte.toNat byte.toNat_lt
  rwa [same] at digits

/-- The hex that goes into the line: `bin2hex` up to the NUL that it ends with. -/
theorem cString_bin2hex (bytes : Bytes) : cString (bin2hex bytes) = hexText bytes := by
  have digits : bin2hex bytes = hexText bytes ++ [0] := by
    unfold bin2hex hexText
    simp only [hfBin2hex_eq]
  rw [digits, cString, List.takeWhile_append_of_pos]
  · simp
  · intro byte member
    rw [bne_iff_ne]
    rintro rfl
    exact (hexText_plain bytes).zero_not_mem member

/-! ## The text of a call -/

/-- A call, from its first brace to the members of `params` and what follows them. -/
def callText (method inner : Bytes) : Bytes :=
  123 :: 34 :: (ascii "method" ++ 34 :: 58 :: 34 :: (method ++ 34 :: 44 ::
    34 :: (ascii "params" ++ 34 :: 58 :: 123 :: inner)))

/-- What follows the params. -/
def afterParams (digits : Bytes) : Bytes :=
  34 :: (ascii "id" ++ 34 :: 58 :: (digits ++ 125 :: [10]))

/-- A field that is read no shorter than it stands in the text stands for itself, and the
members behind it are read on their own. -/
theorem readField_raw {depth fuel : Nat} {key : String} {raw tail rest : Bytes} {next : UInt8}
    (plainKey : Plain (ascii key)) (unblank : isBlank next = false) (notComma : next ≠ 44)
    (notBrace : next ≠ 125) {members : List (Bytes × Value)}
    (found : readMembers (readValue (depth + 1)) (fuel + 1)
      (34 :: (ascii key ++ 34 :: 58 :: 34 :: (raw ++ 34 :: 44 :: 34 :: next :: tail))) =
        some (members, rest))
    {value : Bytes} (foundValue : firstMember members key = some (.string value))
    (long : raw.length ≤ value.length) :
    (Plain raw ∧ value = raw) ∧
      ∃ others, members = (ascii key, .string raw) :: others ∧
        readMembers (readValue (depth + 1)) fuel (34 :: next :: tail) = some (others, rest) := by
  have strings := readValue_string depth
  obtain ⟨first, others, rfl, outcome⟩ :=
    readMembers_raw strings plainKey unblank notComma notBrace found
  have same : first = value := by
    simpa [firstMember] using foundValue
  subst same
  obtain ⟨plain, whole⟩ := outcome long
  refine ⟨⟨plain, whole⟩, others, by rw [whole], ?_⟩
  rw [readMembers_string strings plainKey plain] at found
  obtain ⟨⟨behind, last⟩, read, parts⟩ := Option.map_eq_some_iff.mp found
  injection parts with parts sameRest
  injection parts with _ parts
  rw [read, ← parts, ← sameRest]

theorem firstMember_cons_of_ne {key other : String} (differs : (ascii other == ascii key) = false)
    (value : Value) (members : List (Bytes × Value)) :
    firstMember ((ascii other, value) :: members) key = firstMember members key := by
  simp [firstMember, differs]

/-- The text of a call is read down to its params, and from there to its end. -/
theorem readDocument_callText {method behind : Bytes} (plain : Plain method)
    (long : 3 ≤ behind.length) :
    ∃ depth fuel rounds, readDocument (callText method (34 :: behind)) =
      ((readMembers (readValue (depth + 1)) (fuel + 4) (34 :: behind)).bind fun params =>
        readNext 125 (readMembers (readValue (depth + 1 + 1)) (rounds + 1))
          (ascii "params", .object params.1) params.2).bind fun members =>
        if skipBlanks members.2 = [] then
          some (.object ((ascii "method", .string method) :: members.1))
        else none := by
  generalize outside : ascii "method" ++ 34 :: 58 :: 34 :: (method ++ 34 :: 44 ::
    34 :: (ascii "params" ++ 34 :: 58 :: 123 :: 34 :: behind)) = whole
  have longer := congrArg List.length outside
  simp only [List.length_cons, List.length_append] at longer
  have line : callText method (34 :: behind) = 123 :: 34 :: whole := by
    rw [← outside]
    rfl
  obtain ⟨depth, nesting⟩ := Nat.exists_eq_add_of_le' (show 1 ≤ whole.length by omega)
  obtain ⟨fuel, inside⟩ := Nat.exists_eq_add_of_le' (show 4 ≤ behind.length + 1 by omega)
  obtain ⟨rounds, around⟩ := Nat.exists_eq_add_of_le' (show 3 ≤ whole.length + 1 by omega)
  have deep : (123 :: 34 :: whole : Bytes).length = depth + 3 := by
    simp only [List.length_cons]
    omega
  have strings := readValue_string (depth + 1)
  refine ⟨depth, fuel, rounds, ?_⟩
  rw [readDocument, line, deep, readValue_object, around, ← outside,
    readMembers_string strings (by decide) plain, readMembers_key (by decide),
    readValue_object, inside]
  cases readMembers (readValue (depth + 1)) (fuel + 4) (34 :: behind) with
  | none => rfl
  | some params =>
      simp only [Option.map_some, Option.bind_some]
      cases readNext 125 (readMembers (readValue (depth + 1 + 1)) (rounds + 1))
          (ascii "params", Value.object params.1) params.2 with
      | none => rfl
      | some members => rfl

/-- A call whose params are read is read as a whole. -/
theorem readDocument_call {method behind : Bytes} (plain : Plain method) (long : 3 ≤ behind.length)
    {params : List (Bytes × Value)} {callId : UInt32}
    (read : ∀ depth fuel, readMembers (readValue (depth + 1)) (fuel + 4) (34 :: behind) =
      some (params, 44 :: afterParams (decimal callId))) :
    readDocument (callText method (34 :: behind)) =
      some (.object
        [(ascii "method", .string method), (ascii "params", .object params),
          (ascii "id", .number (some callId))]) := by
  obtain ⟨depth, fuel, rounds, whole⟩ := readDocument_callText plain long
  have number := readValue_decimalDigits callId (depth + 1) [10]
  rw [whole, read, Option.bind_some, readNext_comma, afterParams, readMembers_key (by decide),
    show decimal callId = decimalDigits callId.toNat from rfl, number, Option.bind_some,
    readNext_close (by decide) (by decide)]
  rfl

/-- The params of a call are read from the text that they are put in. -/
theorem readParams_of_callText {method behind : Bytes} (plain : Plain method)
    (long : 3 ≤ behind.length) {members params : List (Bytes × Value)}
    (found : readDocument (callText method (34 :: behind)) = some (.object members))
    (foundParams : firstMember members "params" = some (.object params)) :
    ∃ depth fuel rest,
      readMembers (readValue (depth + 1)) (fuel + 4) (34 :: behind) = some (params, rest) := by
  obtain ⟨depth, fuel, rounds, read⟩ := readDocument_callText plain long
  rw [read] at found
  obtain ⟨⟨others, last⟩, othersRead, ending⟩ := Option.bind_eq_some_iff.mp found
  obtain ⟨⟨inner, rest⟩, innerRead, next⟩ := Option.bind_eq_some_iff.mp othersRead
  obtain ⟨more, same⟩ := readNext_eq_some next
  refine ⟨depth, fuel, rest, ?_⟩
  rw [innerRead]
  split at ending
  · cases ending
    have first : others = (ascii "params", .object inner) :: more := same
    rw [firstMember_cons_of_ne (by decide), first] at foundParams
    have inside : inner = params := by simpa [firstMember] using foundParams
    rw [inside]
  · cases ending

/-! ## The text of a line -/

/-- The members of `params`, up to the brace behind them. -/
def paramsText (id jobId nonce hash tail : Bytes) : Bytes :=
  34 :: (ascii "id" ++ 34 :: 58 :: 34 :: (id ++ 34 :: 44 ::
    34 :: (ascii "job_id" ++ 34 :: 58 :: 34 :: (jobId ++ 34 :: 44 ::
      34 :: (ascii "nonce" ++ 34 :: 58 :: 34 :: (nonce ++ 34 :: 44 ::
        34 :: (ascii "result" ++ 34 :: 58 :: 34 :: (hash ++ 34 :: 125 :: tail))))))))

def lineText (id jobId nonce hash digits : Bytes) : Bytes :=
  callText (ascii "submit") (paramsText id jobId nonce hash (44 :: afterParams digits))

theorem submitLine_eq (poolMinerId : Bytes) (res : MinerResult) (callId : UInt32) :
    submitLine poolMinerId res callId =
      lineText (cString poolMinerId) (cString res.id.cells) (hexText (le32 res.nonce))
        (hexText res.resHash.cells) (decimal callId) := by
  simp only [submitLine, cString_bin2hex, List.append_assoc]
  rfl

def paramsOf (id jobId nonce hash : Bytes) : List (Bytes × Value) :=
  [(ascii "id", .string id), (ascii "job_id", .string jobId), (ascii "nonce", .string nonce),
    (ascii "result", .string hash)]

section Reading

variable {id jobId nonce hash : Bytes}

theorem readParams_plain (plainId : Plain id) (plainJobId : Plain jobId) (plainNonce : Plain nonce)
    (plainHash : Plain hash) (depth fuel : Nat) (tail : Bytes) :
    readMembers (readValue (depth + 1)) (fuel + 4) (paramsText id jobId nonce hash tail) =
      some (paramsOf id jobId nonce hash, tail) := by
  have strings := readValue_string depth
  unfold paramsText
  rw [readMembers_string strings (by decide) plainId,
    readMembers_string strings (by decide) plainJobId,
    readMembers_string strings (by decide) plainNonce,
    readMembers_last strings (by decide) plainHash]
  rfl

/-- Ids that are read no shorter than they stand in the text stand for themselves. -/
theorem readParams_raw {depth fuel : Nat} {tail rest : Bytes} {params : List (Bytes × Value)}
    (found : readMembers (readValue (depth + 1)) (fuel + 4)
      (paramsText id jobId nonce hash tail) = some (params, rest)) {readId readJobId : Bytes}
    (foundId : firstMember params "id" = some (.string readId))
    (foundJobId : firstMember params "job_id" = some (.string readJobId))
    (longId : id.length ≤ readId.length) (longJobId : jobId.length ≤ readJobId.length) :
    (Plain id ∧ readId = id) ∧ Plain jobId ∧ readJobId = jobId := by
  obtain ⟨plainId, behindId, rfl, jobRead⟩ :=
    readField_raw (by decide) (by decide) (by decide) (by decide) found foundId longId
  rw [firstMember_cons_of_ne (by decide)] at foundJobId
  obtain ⟨plainJobId, -⟩ :=
    readField_raw (by decide) (by decide) (by decide) (by decide) jobRead foundJobId longJobId
  exact ⟨plainId, plainJobId⟩

theorem readDocument_lineText {id jobId nonce hash : Bytes} (plainId : Plain id)
    (plainJobId : Plain jobId) (plainNonce : Plain nonce) (plainHash : Plain hash)
    (callId : UInt32) :
    readDocument (lineText id jobId nonce hash (decimal callId)) =
      some (.object
        [(ascii "method", .string (ascii "submit")),
          (ascii "params", .object (paramsOf id jobId nonce hash)),
          (ascii "id", .number (some callId))]) := by
  refine readDocument_call (by decide) ?_ fun depth fuel =>
    readParams_plain plainId plainJobId plainNonce plainHash depth fuel _
  simp only [List.length_cons, List.length_append]
  omega

theorem readParams_of_lineText {id jobId nonce hash digits : Bytes}
    {members params : List (Bytes × Value)}
    (found : readDocument (lineText id jobId nonce hash digits) = some (.object members))
    (foundParams : firstMember members "params" = some (.object params)) :
    ∃ depth fuel rest, readMembers (readValue (depth + 1)) (fuel + 4)
      (paramsText id jobId nonce hash (44 :: afterParams digits)) = some (params, rest) := by
  refine readParams_of_callText (by decide) ?_ found foundParams
  simp only [List.length_cons, List.length_append]
  omega

end Reading

/-! ## Echoes -/

/-- `data` is a JSON object whose params are the given ids and, in hex, the nonce and
the hash of the share. -/
def Echoes (id jobId : Bytes) (res : MinerResult) (data : Bytes) : Prop :=
  ∃ members params, readDocument data = some (.object members) ∧
    firstMember members "params" = some (.object params) ∧
    firstMember params "id" = some (.string id) ∧
    firstMember params "job_id" = some (.string jobId) ∧
    firstMember params "nonce" = some (.string (hexText (le32 res.nonce))) ∧
    firstMember params "result" = some (.string (hexText res.resHash.cells))

theorem length_cString_le (bytes : Bytes) : (cString bytes).length ≤ bytes.length :=
  (List.takeWhile_sublist _).length_le

theorem firstMember_paramsOf (id jobId nonce hash : Bytes) :
    firstMember (paramsOf id jobId nonce hash) "id" = some (.string id) ∧
      firstMember (paramsOf id jobId nonce hash) "job_id" = some (.string jobId) ∧
      firstMember (paramsOf id jobId nonce hash) "nonce" = some (.string nonce) ∧
      firstMember (paramsOf id jobId nonce hash) "result" = some (.string hash) :=
  ⟨rfl, rfl, rfl, rfl⟩

/-- A whole line echoes the ids of which it has the C strings exactly if both stand
for themselves in JSON. -/
theorem echoes_submitLine_iff {id jobId poolMinerId : Bytes} {res : MinerResult}
    (storedId : cString poolMinerId = cString id) (storedJobId : cString res.id.cells = cString jobId)
    (callId : UInt32) :
    Echoes id jobId res (submitLine poolMinerId res callId) ↔ Plain id ∧ Plain jobId := by
  rw [submitLine_eq, storedId, storedJobId]
  constructor
  · rintro ⟨members, params, read, foundParams, foundId, foundJobId, -, -⟩
    obtain ⟨depth, fuel, rest, paramsRead⟩ := readParams_of_lineText read foundParams
    obtain ⟨⟨plainId, sameId⟩, plainJobId, sameJobId⟩ :=
      readParams_raw paramsRead foundId foundJobId (length_cString_le id) (length_cString_le jobId)
    rw [← sameId] at plainId
    rw [← sameJobId] at plainJobId
    exact ⟨plainId, plainJobId⟩
  · rintro ⟨plainId, plainJobId⟩
    rw [plainId.cString_eq, plainJobId.cString_eq]
    have read := readDocument_lineText plainId plainJobId (hexText_plain (le32 res.nonce))
      (hexText_plain res.resHash.cells) callId
    exact ⟨_, _, read, rfl, firstMember_paramsOf id jobId _ _⟩

/-- A line is sent as it is if it fits the buffer that it is formatted into, and otherwise with
the NUL that `snprintf` ends it with. -/
structure SentAs (size : Nat) (line sent : Bytes) : Prop where
  whole : line.length < size → sent = line
  cut : size ≤ line.length → 0 ∈ sent

theorem zero_mem_snprintf {size : Nat} (positive : 0 < size) {line : Bytes}
    (long : size ≤ line.length) : 0 ∈ (snprintf size line).take line.length := by
  have stored := length_snprintf positive line
  rw [List.take_of_length_le (by omega)]
  simp [snprintf]

/-- The bytes that a slot is sent with. -/
theorem sentAs_take {size : Nat} (positive : 0 < size) {line : Bytes}
    (ended : line.getLast? = some 10) :
    SentAs size line ((snprintf size line).take line.length) where
  whole := (take_snprintf_eq_iff positive ended).mpr
  cut := zero_mem_snprintf positive

/-- The bytes that are read of a buffer, and behind it if the line is longer. -/
theorem sentAs_readFrom {size : Nat} (positive : 0 < size) (memory : Int → UInt8) {line : Bytes}
    (ended : line.getLast? = some 10) :
    SentAs size line (readFrom memory (snprintf size line) 0 line.length) where
  whole := by
    intro fits
    have stored := length_snprintf positive line
    have inside : readFrom memory (snprintf size line) (0 : Nat) line.length =
        ((snprintf size line).drop 0).take line.length := readFrom_inside memory (by omega)
    rw [List.drop_zero, (take_snprintf_eq_iff positive ended).mpr fits] at inside
    exact inside
  cut := fun long => mem_readFrom memory (zero_mem_snprintf positive long)

/-- The bytes that a line is sent with echo the ids exactly if, in addition, the line
fits the buffer that it is formatted into. -/
theorem echoes_sent_iff {id jobId poolMinerId sent : Bytes} {res : MinerResult} {size : Nat}
    {callId : UInt32} (sentAs : SentAs size (submitLine poolMinerId res callId) sent)
    (storedId : cString poolMinerId = cString id)
    (storedJobId : cString res.id.cells = cString jobId) :
    Echoes id jobId res sent ↔
      Plain id ∧ Plain jobId ∧ (submitLine poolMinerId res callId).length < size := by
  by_cases fits : (submitLine poolMinerId res callId).length < size
  · rw [sentAs.whole fits, echoes_submitLine_iff storedId storedJobId]
    simp only [fits, and_true]
  · refine iff_of_false ?_ fun echoes => fits echoes.2.2
    rintro ⟨members, params, read, -⟩
    exact not_mem_of_readDocument read (sentAs.cut (by omega))

end EpicMiner.EventLoop
