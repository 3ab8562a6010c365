/-! Where the settings are kept: a file in the user's directory for settings. -/
namespace Rfcomm.Config

/-- A path with another one behind it; one slash goes between them. -/
def joinPath (dir file : String) : String :=
  if dir.isEmpty || dir.endsWith "/" then dir ++ file else dir ++ "/" ++ file

/-- The user's directory for settings: the one named by the environment if it is an absolute path,
else `.config` in the home directory. -/
def userDirectory (named : Option String) (home : String) : String :=
  match named with
  | some dir => if dir.startsWith "/" then dir else joinPath home ".config"
  | none => joinPath home ".config"

/-- The file of the settings in a directory for settings. -/
def fileIn (dir : String) : String := joinPath (joinPath dir "btserial") "config.toml"

def defaultPath (named : Option String) (home : String) : String := fileIn (userDirectory named home)

end Rfcomm.Config
