import EpicMiner.EventLoop.Framing
import EpicMiner.EventLoop.Provenance
import EpicMiner.Data.HexLoops

/-!
Owns jobs as a server announces them, and that they arrive. Whatever document describes a job,
in a notification or in the answer to the login call, the miners get exactly that job; and
however the lines are cut into reads, it is that of the last complete line.
-/

namespace EpicMiner.EventLoop

open EpicMiner.Library
open EpicMiner.Library.Program
open EpicMiner.Data

variable {Engine : Type}

/-! ## Announcements -/

/-- A job that a message can announce. -/
structure Announcement where
  id : Bytes
  type : PowType
  blob : Bytes
  target : UInt32
  seed : V32
  height : UInt32
  shortId : id.length < 64
  mined : type ≠ .idle
  shortBlob : blob.length ≤ 512
  nonzero : target ≠ 0

/-- The text is hex for the bytes, with digits in either case. -/
structure Spells (text bytes : Bytes) : Prop where
  digits : AllHex text
  even : text.length % 2 = 0
  stored : hexStored text = bytes

/-- The members say all of the job, in any order and with any others among them. Zeros at the
end of a target may be left out. -/
structure Describes (params : List (Bytes × Value)) (job : Announcement) : Prop where
  id : firstMember params "job_id" = some (.string job.id)
  type : firstMember params "pow_algo" = some (.string (ascii (powTypeToStr job.type)))
  blob : ∃ text, firstMember params "blob" = some (.string text) ∧ Spells text job.blob
  target : ∃ text, firstMember params "target" = some (.string text) ∧ text.length ≤ 8 ∧
    Spells (paddedTarget text) (le32 job.target)
  seed : ∃ text, firstMember params "seed_hash" = some (.string text) ∧ Spells text job.seed.cells
  height : firstMember params "height" = some (.number (some job.height))

/-- The message brings the job: as a notification, or with the answer to a login call. -/
inductive Announces (calls : CallMap) (job : Announcement) : Message → Prop
  | notified {params : List (Bytes × Value)} (describes : Describes params job) :
      Announces calls job (.job params)
  | answered {callId : UInt32} {fields params : List (Bytes × Value)} {id : Bytes}
      (awaited : (calls.findCall callId).1 = .login)
      (named : firstMember fields "id" = some (.string id))
      (carried : firstMember fields "job" = some (.object params))
      (describes : Describes params job) : Announces calls job (.reply callId (.ok fields))

/-- The dataset that a job is mined with, and its number. -/
def Announcement.dataset (getEpochNumber : Int32 → Int32) (job : Announcement) :
    Option DatasetRef × UInt64 :=
  match job.type with
  | .randomx => (some .randomxDataset, job.seed.getId)
  | .progpow => (some .progpowDataset, epochOf getEpochNumber job.height)
  | _ => (none, 0)

/-- The job as the miners get it. -/
structure Holds (getEpochNumber : Int32 → Int32) (job : Announcement) (miner : MinerJob) :
    Prop where
  type : miner.type = job.type
  id : cString miner.id.cells = cString job.id
  blob : miner.blob.slice 0 job.blob.length = job.blob
  blobLen : miner.blobLen = job.blob.length.toUInt32
  noncePos : miner.noncePos = job.blob.length.toUInt32 - 4
  target : miner.target = job.target
  height : miner.height = job.height
  dataset : (miner.ds, miner.datasetId) = job.dataset getEpochNumber
  sharesNonce : miner.sharesNonce = true

/-- The job is current and its nonces are counted from zero. -/
structure Takes (config : Config) (job : Announcement) (app : App) : Prop where
  state : app.pool.state = .hasJob
  nonce : app.pool.myJob.nonce = 0
  current : Holds config.getEpochNumber job app.executor.published.currentJob

/-! ## One message -/

theorem powTypeOf_named {type : PowType} (mined : type ≠ .idle) :
    powTypeOf (ascii (powTypeToStr type)) = some type := by
  cases type with
  | idle => exact absurd rfl mined
  | _ => decide +kernel

/-- Parameters that spell a job. -/
structure Spelled (params : JobParams) (job : Announcement) : Prop where
  id : params.jobid = job.id
  type : powTypeOf params.powAlgo = some job.type
  blob : Spells params.blob job.blob
  shortTarget : params.target.length ≤ 8
  target : Spells (paddedTarget params.target) (le32 job.target)
  seed : ∃ text, params.seedHash = .string text ∧ Spells text job.seed.cells
  height : params.height = job.height

theorem Describes.checked {members : List (Bytes × Value)} {job : Announcement}
    (describes : Describes members job) :
    ∃ params, checkParams (.object members) = .ok (some params) ∧ Spelled params job := by
  obtain ⟨blob, isBlob, blobSpells⟩ := describes.blob
  obtain ⟨target, isTarget, short, targetSpells⟩ := describes.target
  obtain ⟨seed, isSeed, seedSpells⟩ := describes.seed
  refine ⟨⟨job.id, blob, target, ascii (powTypeToStr job.type), .string seed, job.height⟩, ?_, ?_⟩
  · have lookup : ∀ key, (Value.object members).getObjectMember (ascii key) =
        .ok (firstMember members key) := fun _ => rfl
    unfold checkParams
    simp only [lookup, describes.id, describes.type, describes.height, isBlob, isTarget, isSeed]
    rfl
  · exact
      { id := rfl
        type := powTypeOf_named job.mined
        blob := blobSpells
        shortTarget := short
        target := targetSpells
        seed := ⟨seed, rfl, seedSpells⟩
        height := rfl }

namespace Spelled

variable {params : JobParams} {job : Announcement} (spelled : Spelled params job)

include spelled

theorem workLen_eq : workLen params = job.blob.length := by
  rw [← spelled.blob.stored, length_hexStored spelled.blob.digits, workLen]

theorem blobDigits_eq : blobDigits params = params.blob := by
  have even := spelled.blob.even
  unfold blobDigits workLen
  exact List.take_of_length_le (by omega)

theorem blobBytes_eq : params.blobBytes = job.blob := by
  rw [JobParams.blobBytes, spelled.blobDigits_eq, spelled.blob.stored]

theorem targetWord_eq : params.targetWord = job.target := by
  rw [JobParams.targetWord, spelled.target.stored, ofLe32_le32]

theorem targetWritten_target (type : PowType) (my : PoolJob) :
    (targetWritten params type my).target = job.target := by
  change ofLe32 ((targetBytes _).write 0 (hexStored (paddedTarget params.target))).cells = _
  rw [spelled.target.stored, Buffer.cells_write_whole _ _ (length_le32 _), ofLe32_le32]

theorem seedWritten_seed {text : Bytes} (isText : params.seedHash = .string text)
    (type : PowType) (my : PoolJob) :
    (seedWritten params type text my).randomxSeed = job.seed := by
  obtain ⟨other, isOther, spells⟩ := spelled.seed
  cases isText.symm.trans isOther
  change my.randomxSeed.write 0 (hexStored text) = job.seed
  rw [spells.stored, Buffer.write_cells]

theorem length_seed {text : Bytes} (isText : params.seedHash = .string text) :
    text.length = 64 := by
  obtain ⟨other, isOther, spells⟩ := spelled.seed
  cases isText.symm.trans isOther
  have stored := length_hexStored spells.digits
  have even := spells.even
  rw [spells.stored, job.seed.sized] at stored
  omega

/-- No check of the job fails. -/
theorem filled (my : PoolJob) :
    ∃ filled, fillJob params my = (none, filled) ∧ filled.randomxSeed = job.seed := by
  have filling := fillJob_filling params my
  have named := spelled.type
  have shortId := job.shortId
  have shortBlob := job.shortBlob
  have worked := spelled.workLen_eq
  cases result : fillJob params my with
  | mk rejection filled =>
      rw [result] at filling
      cases filling with
      | unknownAlgo err unknown => cases unknown.symm.trans named
      | longId err _ long =>
          rw [spelled.id] at long
          omega
      | longBlob err _ _ long => omega
      | badBlob err _ _ _ bad =>
          rw [spelled.blobDigits_eq] at bad
          exact absurd spelled.blob.digits bad
      | longTarget err _ long =>
          have short := spelled.shortTarget
          omega
      | badTarget err _ _ bad =>
          rcases bad with bad | zero
          · exact absurd spelled.target.digits bad
          · rw [spelled.targetWritten_target] at zero
            exact absurd zero job.nonzero
      | noSeed err _ other =>
          obtain ⟨text, isText, -⟩ := spelled.seed
          exact absurd (spelled.length_seed isText) (other text isText)
      | badSeed err _ isText _ bad =>
          obtain ⟨text, isSeed, spells⟩ := spelled.seed
          cases isText.symm.trans isSeed
          exact absurd spells.digits bad
      | filled _ isText _ _ => exact ⟨_, rfl, spelled.seedWritten_seed isText _ _⟩

end Spelled

theorem published_dataset (getEpochNumber : Int32 → Int32) (my : PoolJob) :
    ((MinerJob.published getEpochNumber my).ds, (MinerJob.published getEpochNumber my).datasetId) =
      match my.type with
      | .randomx => (some .randomxDataset, my.randomxSeed.getId)
      | .progpow => (some .progpowDataset, epochOf getEpochNumber my.height)
      | _ => (none, 0) := by
  unfold MinerJob.published
  cases my.type <;> rfl

theorem published_sharesNonce (getEpochNumber : Int32 → Int32) (my : PoolJob) :
    (MinerJob.published getEpochNumber my).sharesNonce = true := by
  unfold MinerJob.published
  split <;> rfl

/-- What a filled job that was spelled is to the miners. -/
theorem Spelled.holds {params : JobParams} {job : Announcement} (spelled : Spelled params job)
    {my filled : PoolJob} (isFilled : Filled params my filled)
    (seed : filled.randomxSeed = job.seed) (getEpochNumber : Int32 → Int32) :
    Holds getEpochNumber job
      (.published getEpochNumber { finishJob params filled with nonce := 0 }) := by
  have carries := isFilled.carries getEpochNumber
  have type := Option.some.inj (carries.type.symm.trans spelled.type)
  have blobBytes := spelled.blobBytes_eq
  have filledType := Option.some.inj (isFilled.type.symm.trans spelled.type)
  constructor
  case type => exact type
  case id => rw [carries.id, spelled.id]
  case blob => exact blobBytes ▸ carries.blob
  case blobLen => rw [carries.blobLen, blobBytes]
  case noncePos => rw [carries.noncePos, blobBytes]
  case target => rw [carries.target, spelled.targetWord_eq]
  case height => rw [carries.height, spelled.height]
  case dataset =>
    rw [published_dataset, Announcement.dataset, ← spelled.height, ← seed, ← filledType]
    rfl
  case sharesNonce => exact published_sharesNonce getEpochNumber _

/-- The calls that a message leaves in the map. -/
def callsAfter (calls : CallMap) : Message → CallMap
  | .reply callId _ => (calls.findCall callId).2.2
  | _ => calls

/-- A job message whose parameters spell a job ends in no other way. -/
theorem Spelled.taken {config : Config} {params : JobParams} {job : Announcement} {param : Value}
    {app next : App} {accepted : Bool} (spelled : Spelled params job)
    (checked : checkParams param = .ok (some params))
    (outcome : JobOutcome config param app accepted next) :
    accepted = true ∧ Takes config job next ∧ next.pool.calls = app.pool.calls := by
  obtain ⟨filled, fills, seed⟩ := spelled.filled app.pool.myJob.reset
  cases outcome with
  | refused none => cases none.symm.trans checked
  | rejected other err my found rejects =>
      cases found.symm.trans checked
      cases rejects.symm.trans fills
  | accepted other my found accepts =>
      cases found.symm.trans checked
      cases accepts.symm.trans fills
      refine ⟨rfl, ⟨rfl, rfl, ?_⟩, rfl⟩
      have current : (app.jobAccepted config
          { finishJob params filled with nonce := 0 }).executor.published.currentJob =
          MinerJob.published config.getEpochNumber { finishJob params filled with nonce := 0 } :=
        PublishedJobs.currentJob_publish _ _
      rw [current]
      exact spelled.holds (filled_of_accepted fills) seed config.getEpochNumber

theorem Announces.sound {config : Config} {app : App} {job : Announcement} {message : Message}
    (announces : Announces app.pool.calls job message) : message.Sound config app := by
  cases announces with
  | notified describes => trivial
  | answered awaited named carried describes =>
      simp only [Message.Sound, awaited]
      rintro fields id other ⟨⟩ - isJob
      cases carried.symm.trans isJob
      rfl

theorem Announces.processed {config : Config} {app next : App} {job : Announcement}
    {message : Message} {accepted : Bool} (announces : Announces app.pool.calls job message)
    (processed : Processed config app message accepted next) :
    accepted = true ∧ Takes config job next ∧
      next.pool.calls = callsAfter app.pool.calls message := by
  cases announces with
  | notified describes =>
      obtain ⟨params, checked, spelled⟩ := describes.checked
      cases processed with
      | job outcome => exact spelled.taken checked outcome
  | answered awaited named carried describes =>
      obtain ⟨params, checked, spelled⟩ := describes.checked
      cases processed with
      | replyRefused err _ unanswered =>
          exact absurd carried (unanswered awaited _ _ _ rfl named)
      | loggedIn _ _ isJob outcome =>
          cases carried.symm.trans isJob
          exact spelled.taken checked outcome
      | shareReplied _ isResult _ => cases awaited.symm.trans isResult
      | kept isKeepalive => cases awaited.symm.trans isKeepalive

/-- A document that announces a job is processed, and the job taken. -/
theorem Announces.taken {config : Config} {app : App} {members : List (Bytes × Value)}
    {job : Announcement} (announces : Announces app.pool.calls job (Message.ofMembers members)) :
    ∃ next, (processJsonDoc config (.object members)).run app = .ok (true, next) ∧
      Takes config job next ∧
      next.pool.calls = callsAfter app.pool.calls (Message.ofMembers members) := by
  have there : Announces (app.record (.document (.object members))).pool.calls job
      (Message.ofMembers members) := announces
  have ends := (Message.process_processed config (Message.ofMembers members)
    (app.record (.document (.object members)))).imp (fun _ _ both => both.2)
    fun _ unsound => unsound there.sound
  obtain ⟨accepted, next, ran, processed⟩ := ends.exists_run
  obtain ⟨rfl, takes, calls⟩ := there.processed processed
  refine ⟨next, ?_, takes, calls⟩
  rw [processJsonDoc_object]
  exact ran

/-! ## Lines -/

/-- A line of the server, and the job that it is to announce. -/
structure JobLine (rapidjson : RapidJson) extends ServerMessage rapidjson where
  job : Announcement

/-- Every line announces its job, with the calls that the lines before it leave. -/
def Announced {rapidjson : RapidJson} : CallMap → List (JobLine rapidjson) → Prop
  | _, [] => True
  | calls, line :: lines =>
      Announces calls line.job (Message.ofMembers line.members) ∧
        Announced (callsAfter calls (Message.ofMembers line.members)) lines

/-- With no line complete the job is what it was, and then that of the last complete one. -/
def Follows {rapidjson : RapidJson} (config : Config) (app : App) (lines : List (JobLine rapidjson))
    (last : App) : Prop :=
  match lines.getLast? with
  | none => last.pool = app.pool ∧ last.executor = app.executor
  | some line => Takes config line.job last

section Reads

variable {env : Env Engine} {rapidjson : RapidJson} {config : Config} {app next last : App}

theorem Follows.of_eq {lines : List (JobLine rapidjson)} (follows : Follows config next lines last)
    (pool : next.pool = app.pool) (executor : next.executor = app.executor) :
    Follows config app lines last := by
  unfold Follows at *
  split at follows
  · exact ⟨follows.1.trans pool, follows.2.trans executor⟩
  · exact follows

/-- What a line brings stays until the next line is complete. -/
theorem Follows.cons {line : JobLine rapidjson} {lines : List (JobLine rapidjson)}
    (follows : Follows config next lines last) (takes : Takes config line.job next) :
    Follows config app (line :: lines) last := by
  unfold Follows at *
  rw [List.getLast?_cons]
  split at follows
  case h_1 none =>
    rw [none]
    obtain ⟨pool, executor⟩ := follows
    exact ⟨pool ▸ takes.state, pool ▸ takes.nonce, executor ▸ takes.current⟩
  case h_2 later isLater =>
    rw [isLater]
    exact follows

/-- The induction is on the reads, with a part of the first line unread. -/
theorem follows_of_unread (plain : env.useTls = false) (reads : List Input) {sys : Sys Engine}
    {unreadBytes later : Bytes} {lines : List (JobLine env.config.rapidjson)}
    (unread : Unread sys unreadBytes) (clean : 10 ∉ unreadBytes)
    (division : unreadBytes ++ reads.flatMap Input.chunk ++ later =
      stream (lines.map JobLine.toServerMessage))
    (announced : Announced sys.app.pool.calls lines)
    (areReads : ∀ input ∈ reads, input.event = .read input.chunk)
    (few : ∀ input ∈ reads, newlines [input] ≤ 1)
    (offered : ∀ served input last, served ++ [input] <+: reads →
      Machine.runPartial (step env) sys served = some last → Enabled last input.event) :
    ∃ last, Machine.runPartial (step env) sys reads = some last ∧
      Follows env.config sys.app (lines.take (newlines reads)) last.app := by
  induction reads generalizing sys unreadBytes lines with
  | nil => exact ⟨sys, rfl, rfl, rfl⟩
  | cons input reads inductionHypothesis =>
      have read := areReads input (.head _)
      have enabled := offered [] input sys ⟨reads, rfl⟩ rfl
      have readsLater : ∀ other ∈ reads, other.event = .read other.chunk :=
        fun other member => areReads other (.tail _ member)
      have fewLater : ∀ other ∈ reads, newlines [other] ≤ 1 :=
        fun other member => few other (.tail _ member)
      have offeredLater : ∀ {next : Sys Engine}, step env sys input = some next →
          ∀ served other last, served ++ [other] <+: reads →
            Machine.runPartial (step env) next served = some last → Enabled last other.event := by
        intro next stepped served other last initial ran
        refine offered (input :: served) other last (List.cons_prefix_cons.mpr ⟨rfl, initial⟩) ?_
        rw [Machine.runPartial_cons, stepped]
        exact ran
      rw [List.flatMap_cons, ← List.append_assoc] at division
      rw [newlines_cons, Machine.runPartial_cons]
      rcases Nat.le_one_iff_eq_zero_or_eq_one.mp (few input (.head _)) with none | one
      · have partialClean : 10 ∉ unreadBytes ++ input.chunk := by
          simpa [clean] using List.count_eq_zero.mp (newlines_single input ▸ none)
        obtain ⟨next, stepped, unread, same⟩ := step_noLine plain unread read enabled partialClean
        have still : Announced next.app.pool.calls lines := by
          rw [same]
          exact announced
        obtain ⟨last, ran, follows⟩ := inductionHypothesis unread partialClean division still
          readsLater fewLater (offeredLater stepped)
        rw [stepped, none, Nat.zero_add]
        exact ⟨last, ran, follows.of_eq (by rw [same]; rfl) (by rw [same]; rfl)⟩
      · obtain ⟨text, rest, split, textClean, restClean⟩ :=
          Lines.exists_only (newlines_single input ▸ one)
        have whole : unreadBytes ++ input.chunk = (unreadBytes ++ text) ++ 10 :: rest := by
          rw [split, List.append_assoc]
        rw [whole, List.append_assoc, List.append_assoc, List.cons_append] at division
        obtain ⟨message, others, isFirst, isText, restDivision⟩ :=
          stream_first (by simp [clean, textClean]) division
        obtain ⟨line, lines, rfl, rfl, rfl⟩ := List.map_eq_cons_iff.mp isFirst
        obtain ⟨announces, announcedLater⟩ := announced
        rw [← isText] at whole
        have there : Announces (sys.answering input).app.pool.calls line.job
            (Message.ofMembers line.members) := announces
        obtain ⟨app, processed, takes, calls⟩ := there.taken
        obtain ⟨next, stepped, unread, rfl⟩ := step_accepted plain unread read enabled whole
          line.noNul restClean line.parses processed
        obtain ⟨last, ran, follows⟩ := inductionHypothesis unread restClean
          (by rwa [← List.append_assoc] at restDivision) (calls ▸ announcedLater)
          readsLater fewLater (offeredLater stepped)
        rw [stepped, one, Nat.add_comm, List.take_succ_cons]
        exact ⟨last, ran, follows.cons takes⟩

end Reads

/-- However the lines of the server are cut into reads, if no read completes two of them: in
every moment the job is the one that the last complete line announces, exactly as announced. -/
theorem announced_jobs_taken (env : Env Engine) (plain : env.useTls = false) (sys : Sys Engine)
    (nothingUnread : sys.net.recvPos = 0) (lines : List (JobLine env.config.rapidjson))
    (announced : Announced sys.app.pool.calls lines) (reads : List Input) (later : Bytes)
    (areReads : ∀ input ∈ reads, input.event = .read input.chunk)
    (division : reads.flatMap Input.chunk ++ later = stream (lines.map JobLine.toServerMessage))
    (few : ∀ input ∈ reads, newlines [input] ≤ 1)
    (offered : ∀ served input last, served ++ [input] <+: reads →
      Machine.runPartial (step env) sys served = some last → Enabled last input.event) :
    ∃ last, Machine.runPartial (step env) sys reads = some last ∧
      Follows env.config sys.app (lines.take (newlines reads)) last.app := by
  have unread : Unread sys [] := ⟨nothingUnread, by simp [Buffer.slice], by simp⟩
  exact follows_of_unread plain reads unread (by simp) division announced areReads few offered

/-! ## Printed jobs -/

/-- The digits that `bin2hex` writes, less the terminator. -/
def digitsOf (bytes : Bytes) : Bytes :=
  (bin2hex bytes).take (2 * bytes.length)

theorem spells_digitsOf (bytes : Bytes) : Spells (digitsOf bytes) bytes where
  digits := (digits_bin2hex bytes).1
  even := by
    have length := length_bin2hex bytes
    rw [digitsOf, List.length_take]
    omega
  stored := (digits_bin2hex bytes).2

namespace Announcement

def params (job : Announcement) : List (Bytes × Value) :=
  [(ascii "job_id", .string job.id), (ascii "blob", .string (digitsOf job.blob)),
    (ascii "target", .string (digitsOf (le32 job.target))),
    (ascii "pow_algo", .string (ascii (powTypeToStr job.type))),
    (ascii "seed_hash", .string (digitsOf job.seed.cells)),
    (ascii "height", .number (some job.height))]

/-- The notification of a job, as a server prints it. -/
def members (job : Announcement) : List (Bytes × Value) :=
  [(ascii "method", .string (ascii "job")), (ascii "params", .object job.params)]

theorem describes_params (job : Announcement) : Describes job.params job where
  id := rfl
  type := rfl
  blob := ⟨_, rfl, spells_digitsOf job.blob⟩
  target := by
    refine ⟨_, rfl, ?_, ?_⟩
    · simp [digitsOf, length_bin2hex]
    · have whole : paddedTarget (digitsOf (le32 job.target)) = digitsOf (le32 job.target) := by
        simp [paddedTarget, digitsOf, length_bin2hex]
      rw [whole]
      exact spells_digitsOf (le32 job.target)
  seed := ⟨_, rfl, spells_digitsOf job.seed.cells⟩
  height := rfl

/-- Every job can be announced. -/
theorem announces_members (job : Announcement) (calls : CallMap) :
    Announces calls job (Message.ofMembers job.members) :=
  .notified job.describes_params

end Announcement

/-- The job of the sample message. -/
def sampleAnnouncement : Announcement where
  id := ascii "1"
  type := .randomx
  blob := List.replicate 8 0
  target := 4294967295
  seed := default
  height := 1
  shortId := by decide
  mined := by decide
  shortBlob := by decide
  nonzero := by decide

def sampleLine : JobLine Env.sample.config.rapidjson where
  toServerMessage := sampleMessage
  job := sampleAnnouncement

theorem sampleMessage_members : sampleMessage.members = sampleAnnouncement.members :=
  rfl

/-- One line and a part of the next one are read, and the job of the first is taken. -/
theorem announced_jobs_taken_firstPart :
    ∃ last, Machine.runPartial (step .sample) loggedIn [firstPart] = some last ∧
      Follows Env.sample.config loggedIn.app [sampleLine] last.app := by
  obtain ⟨-, nothingUnread⟩ := loggedIn_reachable
  have announces : ∀ calls, Announces calls sampleLine.job (.ofMembers sampleLine.members) := by
    intro calls
    change Announces calls sampleAnnouncement (.ofMembers sampleMessage.members)
    rw [sampleMessage_members]
    exact sampleAnnouncement.announces_members calls
  have division : [firstPart].flatMap Input.chunk ++ secondPart.chunk =
      stream [sampleMessage, sampleMessage] := by decide +kernel
  have enabled : Enabled loggedIn firstPart.event := by decide +kernel
  have one : newlines [firstPart] = 1 := by decide +kernel
  have read : firstPart.event = .read firstPart.chunk := rfl
  generalize loggedIn = sys, firstPart = input at *
  have taken := announced_jobs_taken .sample rfl sys nothingUnread [sampleLine, sampleLine]
    ⟨announces _, announces _, trivial⟩ [input] secondPart.chunk (by simpa using read) division
    (by simp [one]) (fun served other last initial ran => ?_)
  · rwa [one] at taken
  · obtain ⟨rfl, rfl⟩ : served = [] ∧ other = input := by
      have few := initial.length_le
      cases served with
      | nil => exact ⟨rfl, (List.cons_prefix_cons.mp initial).1⟩
      | cons head rest => simp at few
    cases ran
    exact enabled

end EpicMiner.EventLoop
