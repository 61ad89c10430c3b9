import TickScheduler.Record
import TickScheduler.Settings
/-!
Reading settings from the values of any data format. Whatever is left out has its default.
-/
namespace TickScheduler

open Record Record.Slot

variable {Value : Type} [Format Value]

def LoopSettings.fields : List String :=
  ["lookahead_multiplier", "poll_interval_ms", "max_task_queue", "max_task_results",
    "max_detail_len", "max_consecutive_failures", "healthcheck_file"]

def LoopSettings.read? (v : Value) : Option LoopSettings := do
  let default : LoopSettings := {}
  match ← Format.slots LoopSettings.fields v with
  | [lookahead, poll, queue, results, detail, failures, healthcheck] =>
    return {
      lookaheadMultiplier := ← lookahead.withDefault default.lookaheadMultiplier toTick?
      pollIntervalMs := ← poll.withDefault default.pollIntervalMs (toCount? UInt64.size)
      maxTaskQueue := ← queue.withDefault default.maxTaskQueue (toCount? UInt64.size)
      maxTaskResults := ← results.withDefault default.maxTaskResults (toCount? UInt64.size)
      maxDetailLen := ← detail.withDefault default.maxDetailLen (toCount? UInt64.size)
      maxConsecutiveFailures := ← failures.withDefault none (orNull (toCount? UInt32.size))
      healthcheckFile := ← healthcheck.withDefault none (orNull Format.toText?) }
  | _ => none

def CallbackSettings.fields : List String :=
  ["timeout_secs", "verify_ssl", "ca_cert_path", "auth_token", "asynchronous", "result_base_url"]

def CallbackSettings.read? (v : Value) : Option CallbackSettings := do
  let default : CallbackSettings := {}
  match ← Format.slots CallbackSettings.fields v with
  | [timeout, verify, certificate, token, asynchronous, baseUrl] =>
    return {
      timeoutSecs := ← timeout.withDefault default.timeoutSecs (toCount? UInt64.size)
      verifySsl := ← verify.withDefault default.verifySsl Format.toBool?
      caCertPath := ← certificate.withDefault none (orNull Format.toText?)
      authToken := ← token.withDefault none (orNull Format.toText?)
      asynchronous := ← asynchronous.withDefault default.asynchronous Format.toBool?
      resultBaseUrl := ← baseUrl.withDefault default.resultBaseUrl Format.toText? }
  | _ => none

def DatabaseSettings.fields : List String := ["path"]

/-- Reads database settings, whose default depends on the home directory. -/
def DatabaseSettings.read? (home : String) (v : Value) : Option DatabaseSettings := do
  match ← Format.slots DatabaseSettings.fields v with
  | [path] =>
    return { path := ← path.withDefault (DatabaseSettings.default home).path Format.toText? }
  | _ => none

def Settings.fields : List String := ["database", "scheduler", "callback"]

/-- Reads settings, of which the database's default depends on the home directory. -/
def Settings.read? (home : String) (v : Value) : Option Settings := do
  match ← Format.slots Settings.fields v with
  | [database, loop, callback] =>
    return {
      database := ← database.withDefault (.default home) (DatabaseSettings.read? home)
      loop := ← loop.withDefault {} LoopSettings.read?
      callback := ← callback.withDefault {} CallbackSettings.read? }
  | _ => none

end TickScheduler
