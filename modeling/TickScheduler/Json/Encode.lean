import TickScheduler.Entry.Draft
import TickScheduler.Json.Value
import TickScheduler.Settings
import TickScheduler.TaskResult
/-!
Writing the types of this library as JSON values, with every field present. A duration is a
floating-point number, whose text is for the caller to choose.
-/
namespace TickScheduler

open Json

def TaskStatus.toJson (status : TaskStatus) : Json := .string status.name

def LoopStatus.toJson (status : LoopStatus) : Json := .string status.name

/-- A tick or a task id. -/
def Json.tick (t : Tick) : Json := .int t.toInt

def Entry.toJson (e : Entry) : Json :=
  .record [
    ("name", .string e.name),
    ("action", .string e.action),
    ("priority", .int e.priority.toInt),
    ("start", .tick e.start),
    ("stop", .optional .tick e.stop),
    ("interval", .optional .tick e.interval),
    ("is_active", .bool e.isActive),
    ("callback_url", .optional .string e.callbackUrl),
    ("next_task_time", .tick e.nextTaskTime),
    ("next_task_id", .tick e.nextTaskId),
    ("owner", .optional .string e.owner),
    ("created_at", .string e.createdAt),
    ("modified_at", .string e.modifiedAt)]

def Draft.toJson (d : Draft) : Json :=
  .record [
    ("name", .string d.name),
    ("action", .string d.action),
    ("priority", .optional (.int ·.toInt) d.priority),
    ("start", .optional .tick d.start),
    ("stop", .optional .tick d.stop),
    ("stop_is_relative", .bool d.stopIsRelative),
    ("interval", .optional .tick d.interval),
    ("callback_url", .optional .string d.callbackUrl),
    ("owner", .optional .string d.owner)]

def Task.toJson (t : Task) : Json :=
  .record [
    ("time", .tick t.time),
    ("priority", .int t.priority.toInt),
    ("action", .string t.action),
    ("schedule_entry_name", .string t.entryName),
    ("task_id", .optional .tick t.taskId)]

def TaskResult.toJson (duration : Float → Json) (r : TaskResult) : Json :=
  .record [
    ("schedule_entry", .string r.entryName),
    ("task_id", .tick r.taskId),
    ("started", .string r.started.shownText),
    ("finished", .string r.finished.shownText),
    ("duration", duration r.duration),
    ("status", r.status.toJson),
    ("detail", .string r.detail)]

def Payload.toJson (duration : Float → Json) (p : Payload) : Json :=
  .record [
    ("url", .string p.url),
    ("schedule_entry", .string p.entryUrl),
    ("task_id", .tick p.taskId),
    ("started", .string p.started),
    ("finished", .string p.finished),
    ("duration", duration p.duration),
    ("result", p.status.toJson),
    ("detail", .string p.detail)]

def LoopSettings.toJson (s : LoopSettings) : Json :=
  .record [
    ("lookahead_multiplier", .tick s.lookaheadMultiplier),
    ("poll_interval_ms", .nat s.pollIntervalMs),
    ("max_task_queue", .nat s.maxTaskQueue),
    ("max_task_results", .nat s.maxTaskResults),
    ("max_detail_len", .nat s.maxDetailLen),
    ("max_consecutive_failures", .optional .nat s.maxConsecutiveFailures),
    ("healthcheck_file", .optional .string s.healthcheckFile)]

def CallbackSettings.toJson (s : CallbackSettings) : Json :=
  .record [
    ("timeout_secs", .nat s.timeoutSecs),
    ("verify_ssl", .bool s.verifySsl),
    ("ca_cert_path", .optional .string s.caCertPath),
    ("auth_token", .optional .string s.authToken),
    ("asynchronous", .bool s.asynchronous),
    ("result_base_url", .string s.resultBaseUrl)]

def DatabaseSettings.toJson (s : DatabaseSettings) : Json :=
  .record [("path", .string s.path)]

def Settings.toJson (s : Settings) : Json :=
  .record [
    ("database", s.database.toJson),
    ("scheduler", s.loop.toJson),
    ("callback", s.callback.toJson)]

end TickScheduler
