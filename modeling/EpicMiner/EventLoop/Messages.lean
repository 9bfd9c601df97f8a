import EpicMiner.EventLoop.Callbacks
import EpicMiner.EventLoop.Outcomes

/-!
Owns the job messages of a server, as values and as texts, and sample sessions of the
event loop with such a server. The texts are those of strings without characters that
JSON escapes.
-/

namespace EpicMiner.EventLoop

open EpicMiner.Library
open EpicMiner.Library.Program
open EpicMiner.Data

structure JobMessage where
  jobid : Bytes
  blob : Bytes
  target : Bytes
  powAlgo : Bytes
  seedHash : Bytes
  height : UInt32

namespace JobMessage

def params (message : JobMessage) : Value :=
  .object
    [(ascii "job_id", .string message.jobid), (ascii "blob", .string message.blob),
      (ascii "target", .string message.target), (ascii "pow_algo", .string message.powAlgo),
      (ascii "seed_hash", .string message.seedHash),
      (ascii "height", .number (some message.height))]

def doc (message : JobMessage) : Value :=
  .object [(ascii "method", .string (ascii "job")), (ascii "params", message.params)]

def paramsText (message : JobMessage) : Bytes :=
  ascii "\x7b\"job_id\":\"" ++ message.jobid ++
    ascii "\",\"blob\":\"" ++ message.blob ++ ascii "\",\"target\":\"" ++ message.target ++
    ascii "\",\"pow_algo\":\"" ++ message.powAlgo ++
    ascii "\",\"seed_hash\":\"" ++ message.seedHash ++
    ascii "\",\"height\":" ++ ascii (toString message.height.toNat) ++ ascii "\x7d"

def text (message : JobMessage) : Bytes :=
  ascii "\x7b\"method\":\"job\",\"params\":" ++ message.paramsText ++ ascii "\x7d"

def sample : JobMessage where
  jobid := ascii "1"
  blob := List.replicate 16 48
  target := ascii "ffffffff"
  powAlgo := ascii "randomx"
  seedHash := List.replicate 64 48
  height := 1

end JobMessage

/-- A plain connection to a server that sends the sample job only. -/
def Env.sample : Env Unit :=
  .plain (.ofRun (.ofTexts [(JobMessage.sample.text, JobMessage.sample.doc)]) ethashEpoch)

def firstSlot : Fin 4 := 0

/-- A login call is outstanding. -/
def loginSession : List Input :=
  [Event.heartbeat.at 20000, (Event.dnsResolved 0 [⟨.inet, []⟩] 0).at 20010,
    (Event.connected 0).at 20020, (Event.written firstSlot 0).at 20025]

/-- The events of a connection up to its first job. -/
def sampleSession : List Input :=
  [Event.heartbeat.at 20000, (Event.dnsResolved 0 [⟨.inet, []⟩] 0).at 20010,
    (Event.connected 0).at 20020, (Event.written firstSlot 0).at 20025,
    (Event.read (JobMessage.sample.text ++ [10])).at 20030]

end EpicMiner.EventLoop
