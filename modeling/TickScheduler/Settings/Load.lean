import TickScheduler.Config.Environment
import TickScheduler.Settings.Decode
import TickScheduler.Toml.Document
/-!
Loading settings from a configuration file and the environment.
-/
namespace TickScheduler.Settings

/-- The home directory that environment variables name, or else the current directory. -/
def home (environment : List (String × String)) : String :=
  (environment.lookup "HOME").getD "."

/-- The configuration file that is read if no other one is named. -/
def defaultFile (environment : List (String × String)) : String :=
  directory (home environment) ++ "/sensord.toml"

/-- The settings of a configuration file, if there is one, with those of environment variables laid
over them. There are none if the file is malformed or a setting is of the wrong kind. -/
def load? (environment : List (String × String)) (file : Option String) : Option Settings := do
  let config ←
    match file with
    | none => some (ConfigValue.table [])
    | some text => Toml.parse? text
  read? (home environment) (Environment.overlay config environment)

end TickScheduler.Settings
