import EpicMiner.Data.Bytes

/-!
Owns `parse_canonical_ssl_error`, which cuts an OpenSSL error text in place at its
first eight colons. The scan reads nothing behind the terminating NUL, and the
nine tokens are the fields of the text.
-/

namespace EpicMiner.EventLoop

open EpicMiner.Data

/-! ## The scan -/

/-- A read outside of the memory of the text. -/
inductive Overread where
  | pastEnd
deriving DecidableEq

/-- `strchr` over the bytes from the pointer on. -/
def strchrFrom (c : UInt8) (ptr : Nat) : Bytes → Except Overread (Option Nat)
  | [] => .error .pastEnd
  | byte :: rest =>
      if byte = c then .ok (some ptr)
      else if byte = 0 then .ok none
      else strchrFrom c (ptr + 1) rest

/-- `strchr(ptr, c)`, none for `nullptr`. A pointer is an offset into the memory. -/
def strchr (memory : Bytes) (ptr : Nat) (c : UInt8) : Except Overread (Option Nat) :=
  strchrFrom c ptr (memory.drop ptr)

/-- `strcspn` with one character to stop at, over the bytes from the pointer on. -/
def strcspnFrom (reject : UInt8) : Bytes → Except Overread Nat
  | [] => .error .pastEnd
  | byte :: rest =>
      if byte = reject ∨ byte = 0 then .ok 0 else (strcspnFrom reject rest).map (· + 1)

def strcspn (memory : Bytes) (ptr : Nat) (reject : UInt8) : Except Overread Nat :=
  strcspnFrom reject (memory.drop ptr)

/-- `ssl_err_tok`. -/
structure SslErrTok where
  ptr : Nat
  len : Nat
deriving DecidableEq

/-- The memory of `input`, and the variables `ptr` and `out`. -/
structure Scan where
  memory : Bytes
  ptr : Nat
  out : List SslErrTok

/-- The loop of `parse_canonical_ssl_error` over the given indices. -/
def scanFrom : List Nat → Scan → Except Overread (Bool × Scan)
  | [], scan => .ok (true, scan)
  | i :: rest, scan =>
      match strchr scan.memory scan.ptr 58 with
      | .error overread => .error overread
      | .ok none => .ok (false, scan)
      | .ok (some ptr) =>
          let out := scan.out.modify (i - 1) fun tok => { tok with len := ptr - tok.ptr }
          scanFrom rest
            { memory := scan.memory.set ptr 0
              ptr := ptr + 1
              out := out.modify i fun tok => { tok with ptr := ptr + 1 } }

/-- `parse_canonical_ssl_error`, with the memory and the tokens it leaves. The tokens are not
initialised before. -/
def parseCanonicalSslError (memory : Bytes) (out : List SslErrTok) :
    Except Overread (Bool × Bytes × List SslErrTok) :=
  match scanFrom (List.range' 1 8)
      ⟨memory, 0, out.modify 0 fun tok => { tok with ptr := 0 }⟩ with
  | .error overread => .error overread
  | .ok (false, scan) => .ok (false, scan.memory, scan.out)
  | .ok (true, scan) =>
      (strcspn scan.memory scan.ptr 10).map fun len =>
        (true, scan.memory, scan.out.modify 8 fun tok => { tok with len := len })

/-! ## Finding a character -/

section Finding

variable {c : UInt8} {field tail : Bytes}

theorem strchrFrom_field (plain : 0 ∉ field) (without : c ∉ field) (ptr : Nat) :
    strchrFrom c ptr (field ++ c :: tail) = .ok (some (ptr + field.length)) := by
  induction field generalizing ptr with
  | nil => exact if_pos rfl
  | cons byte field inductionHypothesis =>
      have other : byte ≠ c := (List.ne_of_not_mem_cons without).symm
      have some : byte ≠ 0 := (List.ne_of_not_mem_cons plain).symm
      rw [List.cons_append, strchrFrom, if_neg other, if_neg some,
        inductionHypothesis (List.not_mem_of_not_mem_cons plain)
          (List.not_mem_of_not_mem_cons without), List.length_cons, Nat.add_assoc, Nat.add_comm 1]

theorem strchrFrom_none (nonzero : c ≠ 0) (plain : 0 ∉ field) (without : c ∉ field) (ptr : Nat) :
    strchrFrom c ptr (field ++ [0]) = .ok none := by
  induction field generalizing ptr with
  | nil => simp [strchrFrom, nonzero.symm]
  | cons byte field inductionHypothesis =>
      have other : byte ≠ c := (List.ne_of_not_mem_cons without).symm
      have some : byte ≠ 0 := (List.ne_of_not_mem_cons plain).symm
      rw [List.cons_append, strchrFrom, if_neg other, if_neg some,
        inductionHypothesis (List.not_mem_of_not_mem_cons plain)
          (List.not_mem_of_not_mem_cons without)]

theorem strcspnFrom_eq (plain : 0 ∉ field) :
    strcspnFrom c (field ++ [0]) = .ok (field.takeWhile (· != c)).length := by
  induction field with
  | nil => simp [strcspnFrom]
  | cons byte field inductionHypothesis =>
      have some : byte ≠ 0 := (List.ne_of_not_mem_cons plain).symm
      have behind := inductionHypothesis (List.not_mem_of_not_mem_cons plain)
      rw [List.cons_append, strcspnFrom, List.takeWhile_cons]
      by_cases stops : byte = c
      · simp [stops]
      · simp [stops, some, behind, Except.map]

end Finding

/-! ## Fields -/

/-- Fields with a character behind each of them. -/
def joined (separator : UInt8) (fields : List Bytes) : Bytes :=
  fields.flatMap (· ++ [separator])

theorem joined_cons_append (separator : UInt8) (field : Bytes) (fields : List Bytes)
    (rest : Bytes) : joined separator (field :: fields) ++ rest =
      field ++ separator :: (joined separator fields ++ rest) := by
  simp [joined]

/-- A text with enough colons begins with so many fields. -/
theorem exists_fields {count : Nat} {text : Bytes} (enough : count ≤ text.count 58) :
    ∃ fields rest, fields.length = count ∧ text = joined 58 fields ++ rest ∧
      ∀ field ∈ fields, 58 ∉ field := by
  induction count generalizing text with
  | zero => exact ⟨[], text, rfl, rfl, by simp⟩
  | succ count inductionHypothesis =>
      have member : 58 ∈ text := List.count_pos_iff.mp (by omega)
      obtain ⟨field, behind, rfl, without⟩ := List.eq_append_cons_of_mem member
      have left : count ≤ behind.count 58 := by
        rw [List.count_append, List.count_cons_self, List.count_eq_zero.mpr without] at enough
        omega
      obtain ⟨fields, rest, length, rfl, others⟩ := inductionHypothesis left
      refine ⟨field :: fields, rest, by rw [List.length_cons, length],
        (joined_cons_append 58 field fields rest).symm, ?_⟩
      exact List.forall_mem_cons.mpr ⟨without, others⟩

theorem count_joined {fields : List Bytes} (without : ∀ field ∈ fields, 58 ∉ field)
    (rest : Bytes) : (joined 58 fields ++ rest).count 58 = fields.length + rest.count 58 := by
  induction fields with
  | nil => simp [joined]
  | cons field fields inductionHypothesis =>
      obtain ⟨first, others⟩ := List.forall_mem_cons.mp without
      have behind := inductionHypothesis others
      rw [joined_cons_append, List.count_append, List.count_cons_self, List.count_eq_zero.mpr first, behind,
        List.length_cons]
      omega

theorem splitOn_joined {fields : List Bytes} (without : ∀ field ∈ fields, 58 ∉ field)
    (rest : Bytes) : (joined 58 fields ++ rest).splitOn 58 = fields ++ rest.splitOn 58 := by
  induction fields with
  | nil => rfl
  | cons field fields inductionHypothesis =>
      obtain ⟨first, others⟩ := List.forall_mem_cons.mp without
      rw [joined_cons_append, List.splitOn_append_cons_self_of_not_mem first, inductionHypothesis others,
        List.cons_append]

theorem intercalate_concat (fields : List Bytes) (last : Bytes) :
    [58].intercalate (fields ++ [last]) = joined 58 fields ++ last := by
  induction fields with
  | nil => simp [joined]
  | cons field fields inductionHypothesis =>
      rw [List.cons_append, List.intercalate_cons_of_ne_nil (by simp), inductionHypothesis,
        joined_cons_append, List.append_assoc, List.singleton_append]

theorem length_joined (separator : UInt8) (fields : List Bytes) :
    (joined separator fields).length = (joined 0 fields).length := by
  simp [joined, List.length_flatMap]

/-! ## The tokens of fields -/

/-- The tokens of fields that lie behind each other from an offset on. -/
def tokensFrom : Nat → List Bytes → List SslErrTok
  | _, [] => []
  | start, field :: fields => ⟨start, field.length⟩ :: tokensFrom (start + field.length + 1) fields

/-- What a token denotes. -/
def SslErrTok.content (memory : Bytes) (tok : SslErrTok) : Bytes :=
  (memory.drop tok.ptr).take tok.len

theorem length_tokensFrom (start : Nat) (fields : List Bytes) :
    (tokensFrom start fields).length = fields.length := by
  induction fields generalizing start with
  | nil => rfl
  | cons field fields inductionHypothesis =>
      rw [tokensFrom, List.length_cons, inductionHypothesis, List.length_cons]

/-- In memory, such tokens denote the fields, and a NUL ends each of them. -/
theorem tokensFrom_content (cut : Bytes) (fields : List Bytes) (rest : Bytes) :
    (tokensFrom cut.length fields).map (SslErrTok.content (cut ++ joined 0 fields ++ rest)) = fields ∧
      ∀ tok ∈ tokensFrom cut.length fields,
        (cut ++ joined 0 fields ++ rest)[tok.ptr + tok.len]? = some 0 := by
  induction fields generalizing cut with
  | nil => exact ⟨rfl, by simp [tokensFrom]⟩
  | cons field fields inductionHypothesis =>
      have behind := inductionHypothesis (cut ++ field ++ [0])
      have memory : cut ++ joined 0 (field :: fields) ++ rest =
          cut ++ field ++ [0] ++ joined 0 fields ++ rest := by simp [joined]
      have start : (cut ++ field ++ [0]).length = cut.length + field.length + 1 := by simp; omega
      rw [start] at behind
      rw [memory]
      refine ⟨?_, List.forall_mem_cons.mpr ⟨?_, behind.2⟩⟩
      · rw [tokensFrom, List.map_cons, behind.1]
        simp [SslErrTok.content]
      · simp

/-- The next token begins behind the NUL of this one. -/
def SslErrTok.Precedes (tok next : SslErrTok) : Prop :=
  next.ptr = tok.ptr + tok.len + 1

theorem tokensFrom_isChain (start : Nat) (fields : List Bytes) (len : Nat) :
    List.IsChain SslErrTok.Precedes
      (tokensFrom start fields ++ [⟨start + (joined 0 fields).length, len⟩]) := by
  induction fields generalizing start with
  | nil => exact .singleton _
  | cons field fields inductionHypothesis =>
      have behind := inductionHypothesis (start + field.length + 1)
      have last : start + field.length + 1 + (joined 0 fields).length =
          start + (joined 0 (field :: fields)).length := by
        simp [joined]
        omega
      rw [last] at behind
      cases fields with
      | nil => exact .cons_cons (by simp [joined, SslErrTok.Precedes]; omega) (.singleton _)
      | cons next fields => exact .cons_cons rfl behind

/-! ## The loop -/

theorem modify_append_cons {α : Type} (before : List α) (item : α) (behind : List α) (f : α → α) :
    (before ++ item :: behind).modify before.length f = before ++ f item :: behind := by
  induction before with
  | nil => rfl
  | cons first before inductionHypothesis =>
      rw [List.cons_append, List.length_cons, List.modify_succ_cons, inductionHypothesis,
        List.cons_append]

/-- One round cuts the next field off. -/
theorem scanFrom_round {cut field tail : Bytes} (plain : 0 ∉ field) (without : 58 ∉ field)
    {completed later : List SslErrTok} (len : Nat) (next : SslErrTok) (places : List Nat) :
    scanFrom ((completed.length + 1) :: places)
        ⟨cut ++ (field ++ 58 :: tail), cut.length, completed ++ ⟨cut.length, len⟩ :: next :: later⟩ =
      scanFrom places
        ⟨cut ++ field ++ [0] ++ tail, cut.length + field.length + 1,
          completed ++ [⟨cut.length, field.length⟩] ++
            ⟨cut.length + field.length + 1, next.len⟩ :: later⟩ := by
  have found : strchr (cut ++ (field ++ 58 :: tail)) cut.length 58 =
      .ok (some (cut.length + field.length)) := by
    rw [strchr, List.drop_left, strchrFrom_field plain without]
  have cuts : (cut ++ (field ++ 58 :: tail)).set (cut.length + field.length) 0 =
      cut ++ field ++ [0] ++ tail := by
    simp
  have measured : (completed ++ ⟨cut.length, len⟩ :: next :: later).modify completed.length
      (fun tok => { tok with len := cut.length + field.length - tok.ptr }) =
        completed ++ ⟨cut.length, field.length⟩ :: next :: later := by
    rw [modify_append_cons, Nat.add_sub_cancel_left]
  have placed : (completed ++ ⟨cut.length, field.length⟩ :: next :: later).modify
      (completed.length + 1) (fun tok => { tok with ptr := cut.length + field.length + 1 }) =
        completed ++ [⟨cut.length, field.length⟩] ++
          ⟨cut.length + field.length + 1, next.len⟩ :: later := by
    have same := modify_append_cons (completed ++ [⟨cut.length, field.length⟩]) next later
      fun tok => { tok with ptr := cut.length + field.length + 1 }
    rwa [List.append_assoc, List.singleton_append, List.length_append] at same
  rw [scanFrom, found]
  simp only [Nat.add_sub_cancel, cuts, measured, placed]

/-- The rounds for some fields. The induction is on the fields left, the tokens before are
complete. -/
theorem scanFrom_fields (fields : List Bytes) (plain : ∀ field ∈ fields, 0 ∉ field)
    (without : ∀ field ∈ fields, 58 ∉ field) (cut rest : Bytes) (completed later : List SslErrTok)
    (len : Nat) (enough : fields.length ≤ later.length) (more : Nat) :
    ∃ lastLen,
      scanFrom (List.range' (completed.length + 1) (fields.length + more))
          ⟨cut ++ (joined 58 fields ++ rest), cut.length, completed ++ ⟨cut.length, len⟩ :: later⟩ =
        scanFrom (List.range' (completed.length + fields.length + 1) more)
          ⟨cut ++ joined 0 fields ++ rest, cut.length + (joined 0 fields).length,
            completed ++ tokensFrom cut.length fields ++
              ⟨cut.length + (joined 0 fields).length, lastLen⟩ :: later.drop fields.length⟩ := by
  induction fields generalizing cut completed later len with
  | nil => exact ⟨len, by simp [joined, tokensFrom]⟩
  | cons field fields inductionHypothesis =>
      obtain ⟨fieldPlain, fieldsPlain⟩ := List.forall_mem_cons.mp plain
      obtain ⟨fieldWithout, fieldsWithout⟩ := List.forall_mem_cons.mp without
      cases later with
      | nil => simp at enough
      | cons next later =>
          obtain ⟨lastLen, behind⟩ := inductionHypothesis fieldsPlain fieldsWithout
            (cut ++ field ++ [0]) (completed ++ [⟨cut.length, field.length⟩]) later next.len
            (by simpa using enough)
          refine ⟨lastLen, ?_⟩
          have start : (cut ++ field ++ [0]).length = cut.length + field.length + 1 := by
            simp
            omega
          have done : (completed ++ [(⟨cut.length, field.length⟩ : SslErrTok)]).length =
              completed.length + 1 := by simp
          have total : cut.length + field.length + 1 + (joined 0 fields).length =
              cut.length + (joined 0 (field :: fields)).length := by
            simp [joined]
            omega
          have rounds : (field :: fields).length + more = fields.length + more + 1 := by
            simp
            omega
          rw [start, done, total] at behind
          rw [rounds, List.range'_succ, joined_cons_append, scanFrom_round fieldPlain fieldWithout, behind]
          simp [joined, tokensFrom, Nat.add_assoc, Nat.add_comm 1]

/-- The tokens of a text, and the text cut at eight colons in memory. -/
structure Canonical (text memory : Bytes) (tokens : List SslErrTok) : Prop where
  nine : tokens.length = 9
  starts : tokens.head?.map SslErrTok.ptr = some 0
  follow : tokens.IsChain SslErrTok.Precedes
  fields : (tokens.take 8).map (SslErrTok.content memory) = (text.splitOn 58).take 8
  terminated : ∀ tok ∈ tokens.take 8, memory[tok.ptr + tok.len]? = some 0
  last : ∀ tok, tokens[8]? = some tok →
    tok.content memory = (text.drop tok.ptr).takeWhile (· != 10)
  joins : ∀ tok, tokens[8]? = some tok →
    [58].intercalate (tokens.map (SslErrTok.content memory)) = text.take (tok.ptr + tok.len)

/-- The token behind some fields. -/
def lastTok (fields : List Bytes) (rest : Bytes) : SslErrTok :=
  ⟨(joined 0 fields).length, (rest.takeWhile (· != 10)).length⟩

/-- The tokens of eight fields and the rest of a text. -/
theorem canonical_of_fields {fields : List Bytes} (eight : fields.length = 8)
    (without : ∀ field ∈ fields, 58 ∉ field) (rest : Bytes) :
    Canonical (joined 58 fields ++ rest) (joined 0 fields ++ (rest ++ [0]))
      (tokensFrom 0 fields ++ [lastTok fields rest]) := by
  have length := length_tokensFrom 0 fields
  have first : (tokensFrom 0 fields ++ [lastTok fields rest]).take 8 = tokensFrom 0 fields := by
    rw [List.take_append_of_le_length (by omega), List.take_of_length_le (by omega)]
  have ninth : ∀ tok, (tokensFrom 0 fields ++ [lastTok fields rest])[8]? = some tok →
      tok = lastTok fields rest := by
    intro tok isTok
    rw [List.getElem?_append_right (by omega), length, eight] at isTok
    exact (Option.some.inj isTok).symm
  obtain ⟨contents, ends⟩ := tokensFrom_content [] fields (rest ++ [0])
  have line : rest.take (rest.takeWhile (· != 10)).length = rest.takeWhile (· != 10) :=
    (List.prefix_iff_eq_take.mp (List.takeWhile_prefix _)).symm
  have lastContent : (lastTok fields rest).content (joined 0 fields ++ (rest ++ [0])) =
      rest.takeWhile (· != 10) := by
    rw [SslErrTok.content, lastTok, List.drop_left, List.take_append_of_le_length
      (List.takeWhile_prefix _).length_le, line]
  constructor
  · rw [List.length_append, length, eight]
    rfl
  · cases fields with
    | nil => cases eight
    | cons field fields => rfl
  · have chain := tokensFrom_isChain 0 fields (rest.takeWhile (· != 10)).length
    rwa [Nat.zero_add] at chain
  · rw [first, splitOn_joined without, List.take_append_of_le_length (by omega),
      List.take_of_length_le (by omega)]
    exact contents
  · rw [first]
    exact ends
  · intro tok isTok
    rw [ninth tok isTok, lastContent, lastTok, ← length_joined 58, List.drop_left]
  · intro tok isTok
    rw [ninth tok isTok, List.map_append, List.map_singleton, lastContent]
    rw [show (tokensFrom 0 fields).map (SslErrTok.content (joined 0 fields ++ (rest ++ [0]))) =
      fields from contents, intercalate_concat, lastTok, ← length_joined 58,
      List.take_length_add_append, line]

theorem plain_of_joined {fields : List Bytes} {rest : Bytes}
    (plain : 0 ∉ joined 58 fields ++ rest) : (∀ field ∈ fields, 0 ∉ field) ∧ 0 ∉ rest := by
  obtain ⟨notFields, notRest⟩ := not_or.mp (mt List.mem_append.mpr plain)
  refine ⟨fun field isField member => notFields ?_, notRest⟩
  exact List.mem_flatMap.mpr ⟨field, isField, List.mem_append_left _ member⟩

/-- The loop on a text, up to some of its fields. -/
theorem scanFrom_text {fields : List Bytes} {rest : Bytes} (plain : 0 ∉ joined 58 fields ++ rest)
    (without : ∀ field ∈ fields, 58 ∉ field) {out : List SslErrTok} (nine : out.length = 9)
    {more : Nat} (rounds : fields.length + more = 8) :
    ∃ lastLen,
      scanFrom (List.range' 1 8)
          ⟨joined 58 fields ++ rest ++ [0], 0, out.modify 0 fun tok => { tok with ptr := 0 }⟩ =
        scanFrom (List.range' (fields.length + 1) more)
          ⟨joined 0 fields ++ (rest ++ [0]), (joined 0 fields).length,
            tokensFrom 0 fields ++
              ⟨(joined 0 fields).length, lastLen⟩ :: out.drop (fields.length + 1)⟩ := by
  obtain ⟨first, later, rfl⟩ : ∃ first later, out = first :: later :=
    List.exists_cons_of_ne_nil (List.ne_nil_of_length_pos (by omega))
  have enough : later.length = 8 := by simpa using nine
  obtain ⟨lastLen, scanned⟩ := scanFrom_fields fields (plain_of_joined plain).1 without [] (rest ++ [0])
    [] later first.len (by omega) more
  refine ⟨lastLen, ?_⟩
  simp only [List.nil_append, List.length_nil, Nat.zero_add] at scanned
  rw [rounds] at scanned
  rw [List.append_assoc, List.modify_zero_cons, scanned, List.drop_succ_cons]

/-- The call on eight fields and the rest of a text. -/
theorem parse_of_fields {fields : List Bytes} (eight : fields.length = 8)
    (without : ∀ field ∈ fields, 58 ∉ field) {rest : Bytes} (plain : 0 ∉ joined 58 fields ++ rest)
    {out : List SslErrTok} (nine : out.length = 9) :
    parseCanonicalSslError (joined 58 fields ++ rest ++ [0]) out =
      .ok (true, joined 0 fields ++ (rest ++ [0]), tokensFrom 0 fields ++ [lastTok fields rest]) := by
  obtain ⟨lastLen, scanned⟩ := scanFrom_text plain without nine (show fields.length + 0 = 8 from eight)
  have none : out.drop (fields.length + 1) = [] := List.drop_of_length_le (by omega)
  have spans : strcspn (joined 0 fields ++ (rest ++ [0])) (joined 0 fields).length 10 =
      .ok (rest.takeWhile (· != 10)).length := by
    rw [strcspn, List.drop_left, strcspnFrom_eq (plain_of_joined plain).2]
  have ninth : (tokensFrom 0 fields).length = 8 := by rw [length_tokensFrom, eight]
  have modified := modify_append_cons (tokensFrom 0 fields) ⟨(joined 0 fields).length, lastLen⟩ []
    fun tok => { tok with len := (rest.takeWhile (· != 10)).length }
  rw [ninth] at modified
  rw [parseCanonicalSslError, scanned, none, List.range'_zero, scanFrom]
  simp only [spans, Except.map, modified]
  rfl

/-- The call on a text with too few colons. -/
theorem parse_of_few {text : Bytes} (few : ¬8 ≤ text.count 58) (plain : 0 ∉ text)
    {out : List SslErrTok} (nine : out.length = 9) :
    ∃ memory tokens, parseCanonicalSslError (text ++ [0]) out = .ok (false, memory, tokens) := by
  obtain ⟨fields, rest, length, rfl, without⟩ := exists_fields (le_refl (text.count 58))
  rw [count_joined without] at length few
  have colonless : 58 ∉ rest := List.count_eq_zero.mp (by omega)
  obtain ⟨more, rounds⟩ : ∃ more, fields.length + (more + 1) = 8 := ⟨7 - fields.length, by omega⟩
  obtain ⟨lastLen, scanned⟩ := scanFrom_text plain without nine rounds
  have missing : strchr (joined 0 fields ++ (rest ++ [0])) (joined 0 fields).length 58 = .ok none := by
    rw [strchr, List.drop_left, strchrFrom_none (by decide) (plain_of_joined plain).2 colonless]
  rw [parseCanonicalSslError, scanned, List.range'_succ, scanFrom, missing]
  exact ⟨_, _, rfl⟩

/-- The call on a NUL-terminated text stays inside the text, its answer is whether there are
eight colons, and then the tokens are the fields. -/
theorem parseCanonicalSslError_spec (text : Bytes) (plain : 0 ∉ text) (out : List SslErrTok)
    (nine : out.length = 9) :
    ∃ accepted memory tokens,
      parseCanonicalSslError (text ++ [0]) out = .ok (accepted, memory, tokens) ∧
      (accepted = true ↔ 8 ≤ text.count 58) ∧ (accepted = true → Canonical text memory tokens) := by
  by_cases enough : 8 ≤ text.count 58
  · obtain ⟨fields, rest, eight, rfl, without⟩ := exists_fields enough
    exact ⟨true, _, _, parse_of_fields eight without plain nine, iff_of_true rfl enough,
      fun _ => canonical_of_fields eight without rest⟩
  · obtain ⟨memory, tokens, parsed⟩ := parse_of_few enough plain nine
    exact ⟨false, memory, tokens, parsed, iff_of_false Bool.false_ne_true enough,
      fun accepted => absurd accepted Bool.false_ne_true⟩

/-- An error text of OpenSSL, with a line behind it. -/
def certificateError : Bytes :=
  ascii "140:error:1416F086:SSL routines:connect:verify failed:clnt.c:1921:depth 0\nnext"

theorem parseCanonicalSslError_spec_certificateError :
    ∃ memory tokens,
      parseCanonicalSslError (certificateError ++ [0]) (List.replicate 9 ⟨7, 7⟩) =
        .ok (true, memory, tokens) ∧ Canonical certificateError memory tokens := by
  obtain ⟨accepted, memory, tokens, parsed, answer, canonical⟩ :=
    parseCanonicalSslError_spec certificateError (by decide +kernel) (List.replicate 9 ⟨7, 7⟩)
      (by decide)
  have enough : accepted = true := answer.mpr (by decide +kernel)
  subst enough
  exact ⟨memory, tokens, parsed, canonical rfl⟩

/-! ## The error of a connection -/

/-- The text that `get_tls_error` reports, from the memory of the error BIO, none for `nullptr`. -/
def tlsErrorText (buf : Option Bytes) (tok : List SslErrTok) : Except Overread Bytes :=
  match buf with
  | none => .ok (ascii "Unknown TLS error.")
  | some memory =>
      match parseCanonicalSslError memory tok with
      | .error overread => .error overread
      | .ok (false, _) => .ok (ascii "Unknown TLS error.")
      | .ok (true, memory, tokens) =>
          .ok ((tokens[5]?.map fun tok => cString (memory.drop tok.ptr)).getD [])

/-- As a C string, a token that a NUL ends is what it denotes. -/
theorem SslErrTok.cString_eq {memory : Bytes} {tok : SslErrTok}
    (ends : memory[tok.ptr + tok.len]? = some 0) (plain : 0 ∉ tok.content memory) :
    cString (memory.drop tok.ptr) = tok.content memory := by
  obtain ⟨bound, isNul⟩ := List.getElem?_eq_some_iff.mp ends
  have cut : memory.drop tok.ptr =
      tok.content memory ++ 0 :: memory.drop (tok.ptr + tok.len + 1) := by
    rw [SslErrTok.content, ← isNul, ← List.drop_eq_getElem_cons bound, ← List.drop_drop,
      List.take_append_drop]
  rw [cut, cString_append_nul, cString_of_not_mem plain]

theorem tokensFrom_cString {fields : List Bytes} (plain : ∀ field ∈ fields, 0 ∉ field)
    (rest : Bytes) :
    (tokensFrom 0 fields).map (fun tok => cString ((joined 0 fields ++ rest).drop tok.ptr)) =
      fields := by
  obtain ⟨contents, ends⟩ := tokensFrom_content [] fields rest
  rw [List.nil_append, List.length_nil] at contents ends
  have same : ∀ tok ∈ tokensFrom 0 fields, cString ((joined 0 fields ++ rest).drop tok.ptr) =
      tok.content (joined 0 fields ++ rest) := by
    intro tok member
    have isField : tok.content (joined 0 fields ++ rest) ∈ fields := by
      have listed := List.mem_map_of_mem (f := SslErrTok.content (joined 0 fields ++ rest)) member
      rwa [contents] at listed
    exact SslErrTok.cString_eq (ends tok member) (plain _ isField)
  rw [List.map_congr_left same, contents]

/-- The report is the sixth field of the text. -/
theorem tlsErrorText_eq (text : Bytes) (plain : 0 ∉ text) {tok : List SslErrTok}
    (nine : tok.length = 9) :
    tlsErrorText (some (text ++ [0])) tok =
      .ok (if 8 ≤ text.count 58 then (text.splitOn 58)[5]?.getD []
        else ascii "Unknown TLS error.") := by
  by_cases enough : 8 ≤ text.count 58
  · rw [if_pos enough]
    obtain ⟨fields, rest, eight, rfl, without⟩ := exists_fields enough
    have shown := tokensFrom_cString (plain_of_joined plain).1 (rest ++ [0])
    have sixth : (tokensFrom 0 fields ++ [lastTok fields rest])[5]? = (tokensFrom 0 fields)[5]? :=
      List.getElem?_append_left (by rw [length_tokensFrom, eight]; decide)
    rw [tlsErrorText, parse_of_fields eight without plain nine]
    dsimp only
    rw [sixth, ← List.getElem?_map, splitOn_joined without,
      List.getElem?_append_left (by rw [eight]; decide)]
    exact congrArg (fun list => Except.ok (list[5]?.getD [])) shown
  · obtain ⟨memory, tokens, parsed⟩ := parse_of_few enough plain nine
    rw [if_neg enough, tlsErrorText, parsed]

end EpicMiner.EventLoop
