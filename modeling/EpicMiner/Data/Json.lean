import EpicMiner.Data.Bytes
import EpicMiner.Library.Program

/-!
Owns JSON values as the source reads them through RapidJSON, the typed
accessors with the type errors they assert on, and the faults of a run.
-/

namespace EpicMiner.Data

open EpicMiner.Library

/-! ## Faults -/

/-- The asserts of the network layer, by the pointer or bound they check. -/
inductive Assertion where
  | resolvIdle
  | sockIdle
  | connIdle
  | shutdownIdle
  | consumedFits
  | sendActive
  | sendIdle
  | tlsIdle
deriving DecidableEq, Repr

/-- Where the process aborts or leaves defined behaviour. -/
inductive Fault where
  | assertion (failed : Assertion)
  /-- A RapidJSON accessor applied to a value of another type. -/
  | typeError
  | nullPointer
  /-- `std::vector::at` past the end. -/
  | outOfRange
  | stackOverflow
  /-- A loop that made no progress for as long as the model follows it. -/
  | stuckLoop
deriving DecidableEq, Repr

/-! ## Values -/

/-- `rapidjson::Value`. A number carries its value when `IsUint` holds of it. -/
inductive Value where
  | null
  | bool (value : Bool)
  | number (uint : Option UInt32)
  | string (text : Bytes)
  | array (items : List Value)
  | object (members : List (Bytes × Value))

namespace Value

def isObject : Value → Bool
  | object _ => true
  | _ => false

def isString : Value → Bool
  | string _ => true
  | _ => false

def isUint : Value → Bool
  | number (some _) => true
  | _ => false

/-- `GetString` with `GetStringLength`; the pointer of `GetString` alone denotes
`cString` of it. -/
def getString : Value → Except Fault Bytes
  | string text => .ok text
  | _ => .error .typeError

def getUint : Value → Except Fault UInt32
  | number (some value) => .ok value
  | _ => .error .typeError

/-- `GetObjectMember`: the first member with the name, none for `nullptr`. -/
def getObjectMember (value : Value) (key : Bytes) : Except Fault (Option Value) :=
  match value with
  | object members => .ok ((members.find? fun member => member.1 == key).map Prod.snd)
  | _ => .error .typeError

end Value

/-! ## The parser

RapidJSON is not part of the repository. The model takes its in-situ parser as
a parameter and names what the code relies on. -/

/-- `ParseInsitu` on a NUL-terminated text: the root value, none on a parse
error, and what the in-situ decoding leaves in place of the text. -/
structure RapidJson where
  parseInsitu : Bytes → Option Value
  residue : Bytes → Bytes
  length_residue : ∀ text, (residue text).length = text.length

def isBlank (byte : UInt8) : Bool :=
  byte == 0x20 || byte == 0x09 || byte == 0x0a || byte == 0x0d

/-- The documented behaviour that message framing rests on. -/
structure RapidJson.RejectsTrailing (rapidjson : RapidJson) : Prop where
  /-- Non-blank text after a root object is a parse error. -/
  trailing : ∀ text rest value, rapidjson.parseInsitu text = some value →
    value.isObject = true → (∃ byte ∈ rest, isBlank byte = false) → 0 ∉ rest →
    rapidjson.parseInsitu (text ++ rest) = none
  blank : ∀ text, (∀ byte ∈ text, isBlank byte = true) → rapidjson.parseInsitu text = none

/-! ## A parser of known texts -/

/-- What `ParseInsitu` leaves of a text without escapes: the closing quote of
every string becomes its terminator. -/
def terminateStrings : Bool → Bytes → Bytes
  | _, [] => []
  | inside, byte :: rest =>
      if byte = 34 then
        (if inside then 0 else byte) :: terminateStrings (!inside) rest
      else byte :: terminateStrings inside rest

theorem length_terminateStrings (inside : Bool) (text : Bytes) :
    (terminateStrings inside text).length = text.length := by
  fun_induction terminateStrings inside text with
  | case1 => rfl
  | case2 inside rest inductionHypothesis => simp [inductionHypothesis]
  | case3 inside byte rest _ inductionHypothesis => simp [inductionHypothesis]

/-- A parser that reads the given texts as the given values. -/
def RapidJson.ofTexts (known : List (Bytes × Value)) : RapidJson where
  parseInsitu := fun text => (known.find? fun entry => entry.1 == text).map Prod.snd
  residue := terminateStrings false
  length_residue := length_terminateStrings false

theorem RapidJson.parseInsitu_ofTexts (text : Bytes) (value : Value)
    (known : List (Bytes × Value)) :
    (ofTexts ((text, value) :: known)).parseInsitu text = some value := by
  simp [ofTexts]

theorem RapidJson.ofTexts_rejectsTrailing {text : Bytes} (value : Value)
    (unblank : ∃ byte ∈ text, isBlank byte = false) :
    (ofTexts [(text, value)]).RejectsTrailing where
  trailing := by
    intro other rest root parses _ more _
    obtain ⟨byte, member, -⟩ := more
    have known : text = other := by
      by_contra differs
      simp [ofTexts, differs] at parses
    have longer : rest ≠ [] := List.ne_nil_of_mem member
    simp [ofTexts, known, longer]
  blank := by
    intro other blank
    have differs : text ≠ other := by
      rintro rfl
      obtain ⟨byte, member, isText⟩ := unblank
      rw [blank byte member] at isText
      cases isText
    simp [ofTexts, differs]

end EpicMiner.Data
