import EpicMiner.EventLoop.Echo

/-!
Owns what a login line says as a JSON text. The credentials are put into the line without
escapes, and the identifier of the call in decimal: a server reads the configured credentials
and that identifier exactly if none of them needs an escape and the line fits.
-/

namespace EpicMiner.EventLoop

open EpicMiner.Library
open EpicMiner.Library.Program
open EpicMiner.Data
open EpicMiner.Data.JsonText

variable {Engine : Type}

/-! ## The text of a line -/

/-- The members of `params`, up to the brace behind them. -/
def loginParamsText (login pass rigid tail : Bytes) : Bytes :=
  34 :: (ascii "login" ++ 34 :: 58 :: 34 :: (login ++ 34 :: 44 ::
    34 :: (ascii "pass" ++ 34 :: 58 :: 34 :: (pass ++ 34 :: 44 ::
      34 :: (ascii "rigid" ++ 34 :: 58 :: 34 :: (rigid ++ 34 :: 44 ::
        34 :: (ascii "agent" ++ 34 :: 58 :: 34 :: (ascii "epic_miner" ++ 34 :: 125 :: tail))))))))

def loginText (login pass rigid digits : Bytes) : Bytes :=
  callText (ascii "login") (loginParamsText login pass rigid (44 :: afterParams digits))

theorem loginLine_eq (env : Env Engine) (callId : UInt32) :
    loginLine env callId =
      loginText (cString env.config.username) (cString env.config.password)
        (cString env.config.rigid) (decimal callId) := by
  simp only [loginLine, List.append_assoc]
  rfl

def loginParamsOf (login pass rigid : Bytes) : List (Bytes × Value) :=
  [(ascii "login", .string login), (ascii "pass", .string pass), (ascii "rigid", .string rigid),
    (ascii "agent", .string (ascii "epic_miner"))]

section Reading

variable {login pass rigid : Bytes}

theorem readLoginParams_plain (plainLogin : Plain login) (plainPass : Plain pass)
    (plainRigid : Plain rigid) (depth fuel : Nat) (tail : Bytes) :
    readMembers (readValue (depth + 1)) (fuel + 4) (loginParamsText login pass rigid tail) =
      some (loginParamsOf login pass rigid, tail) := by
  have strings := readValue_string depth
  unfold loginParamsText
  rw [readMembers_string strings (by decide) plainLogin,
    readMembers_string strings (by decide) plainPass,
    readMembers_string strings (by decide) plainRigid,
    readMembers_last strings (by decide) (by decide)]
  rfl

/-- Credentials that are read no shorter than they stand in the text stand for themselves. -/
theorem readLoginParams_raw {depth fuel : Nat} {tail rest : Bytes}
    {params : List (Bytes × Value)}
    (found : readMembers (readValue (depth + 1)) (fuel + 4)
      (loginParamsText login pass rigid tail) = some (params, rest))
    {readLogin readPass readRigid : Bytes}
    (foundLogin : firstMember params "login" = some (.string readLogin))
    (foundPass : firstMember params "pass" = some (.string readPass))
    (foundRigid : firstMember params "rigid" = some (.string readRigid))
    (longLogin : login.length ≤ readLogin.length) (longPass : pass.length ≤ readPass.length)
    (longRigid : rigid.length ≤ readRigid.length) :
    (Plain login ∧ readLogin = login) ∧ (Plain pass ∧ readPass = pass) ∧
      Plain rigid ∧ readRigid = rigid := by
  obtain ⟨plainLogin, behindLogin, rfl, passRead⟩ :=
    readField_raw (by decide) (by decide) (by decide) (by decide) found foundLogin longLogin
  rw [firstMember_cons_of_ne (by decide)] at foundPass foundRigid
  obtain ⟨plainPass, behindPass, rfl, rigidRead⟩ :=
    readField_raw (by decide) (by decide) (by decide) (by decide) passRead foundPass longPass
  rw [firstMember_cons_of_ne (by decide)] at foundRigid
  obtain ⟨plainRigid, -⟩ :=
    readField_raw (by decide) (by decide) (by decide) (by decide) rigidRead foundRigid longRigid
  exact ⟨plainLogin, plainPass, plainRigid⟩

theorem readDocument_loginText (plainLogin : Plain login) (plainPass : Plain pass)
    (plainRigid : Plain rigid) (callId : UInt32) :
    readDocument (loginText login pass rigid (decimal callId)) =
      some (.object
        [(ascii "method", .string (ascii "login")),
          (ascii "params", .object (loginParamsOf login pass rigid)),
          (ascii "id", .number (some callId))]) := by
  refine readDocument_call (by decide) ?_ fun depth fuel =>
    readLoginParams_plain plainLogin plainPass plainRigid depth fuel _
  simp only [List.length_cons, List.length_append]
  omega

theorem readLoginParams_of_loginText {digits : Bytes} {members params : List (Bytes × Value)}
    (found : readDocument (loginText login pass rigid digits) = some (.object members))
    (foundParams : firstMember members "params" = some (.object params)) :
    ∃ depth fuel rest, readMembers (readValue (depth + 1)) (fuel + 4)
      (loginParamsText login pass rigid (44 :: afterParams digits)) = some (params, rest) := by
  refine readParams_of_callText (by decide) ?_ found foundParams
  simp only [List.length_cons, List.length_append]
  omega

end Reading

/-! ## What a server reads -/

/-- `data` is a JSON object that calls `login` with the configured credentials, under the
identifier of the call. -/
def LogsIn (config : Config) (callId : UInt32) (data : Bytes) : Prop :=
  ∃ members params, readDocument data = some (.object members) ∧
    firstMember members "method" = some (.string (ascii "login")) ∧
    firstMember members "id" = some (.number (some callId)) ∧
    firstMember members "params" = some (.object params) ∧
    firstMember params "login" = some (.string config.username) ∧
    firstMember params "pass" = some (.string config.password) ∧
    firstMember params "rigid" = some (.string config.rigid)

/-- Every credential stands for itself in JSON. -/
structure Config.PlainCredentials (config : Config) : Prop where
  username : Plain config.username
  password : Plain config.password
  rigid : Plain config.rigid

theorem logsIn_loginLine_iff (env : Env Engine) (callId : UInt32) :
    LogsIn env.config callId (loginLine env callId) ↔ env.config.PlainCredentials := by
  rw [loginLine_eq]
  constructor
  · rintro ⟨members, params, read, -, -, foundParams, foundLogin, foundPass, foundRigid⟩
    obtain ⟨depth, fuel, rest, paramsRead⟩ := readLoginParams_of_loginText read foundParams
    obtain ⟨⟨plainLogin, sameLogin⟩, ⟨plainPass, samePass⟩, plainRigid, sameRigid⟩ :=
      readLoginParams_raw paramsRead foundLogin foundPass foundRigid (length_cString_le _)
        (length_cString_le _) (length_cString_le _)
    rw [← sameLogin] at plainLogin
    rw [← samePass] at plainPass
    rw [← sameRigid] at plainRigid
    exact ⟨plainLogin, plainPass, plainRigid⟩
  · rintro ⟨plainLogin, plainPass, plainRigid⟩
    rw [plainLogin.cString_eq, plainPass.cString_eq, plainRigid.cString_eq]
    exact ⟨_, _, readDocument_loginText plainLogin plainPass plainRigid callId, rfl, rfl,
      rfl, rfl, rfl, rfl⟩

/-- Of a login line that does not fit its buffer, a server can read nothing. -/
theorem logsIn_sent_iff (env : Env Engine) {callId : UInt32} {size : Nat} {sent : Bytes}
    (sentAs : SentAs size (loginLine env callId) sent) :
    LogsIn env.config callId sent ↔
      env.config.PlainCredentials ∧ (loginLine env callId).length < size := by
  by_cases fits : (loginLine env callId).length < size
  · rw [sentAs.whole fits, logsIn_loginLine_iff]
    simp only [fits, and_true]
  · refine iff_of_false ?_ fun logsIn => fits logsIn.2
    rintro ⟨members, params, read, -⟩
    exact not_mem_of_readDocument read (sentAs.cut (by omega))

/-- In whatever state a login call is made: what is written of it, if anything, is read by a
server as the configured credentials under the identifier that the answer is awaited with
exactly if no credential needs an escape and the line fits its buffer. -/
theorem login_read_iff (env : Env Engine) (sys : Sys Engine) :
    let callId := (sys.registration .login invalidMinerId).2.1
    LineWritten env (doLoginCallThrough env) sys (LogsIn env.config callId) ↔
      (sys.Writes env →
        env.config.PlainCredentials ∧ (loginLine env callId).length < lineRoom env) := by
  intro callId
  have prepared : (liftApp prepareLogin).run sys = .ok (callId, sys.loginMade) := rfl
  refine lineWritten_iff (getLast?_loginLine env callId)
    (fun tls => handsOver_doLoginCall tls sys) (fun plain => ?_)
    fun sent sentAs => logsIn_sent_iff env sentAs
  unfold doLoginCallThrough
  rw [ensures_bind_of_run prepared]
  exact ensures_sendLine_iff plain (loginLine_ne_nil env callId) sys.loginMade _

end EpicMiner.EventLoop
