import SnippetTrail.Path

/-!
# The environment of the process

Variables hold bytes. Where a text is asked for, a variable with other bytes counts as not set; where a
path is, its bytes are the path.
-/

namespace SnippetTrail

structure Environment where
  bindings : List (String × List UInt8)
  /-- The home folder of the account, if it has one, for when no variable names one. -/
  accountHome : Option FilePath

namespace Environment

def value? (environment : Environment) (name : String) : Option SystemText :=
  (environment.bindings.lookup name).map SystemText.mk

def text? (environment : Environment) (name : String) : Option String :=
  (environment.value? name).bind SystemText.text?

def path? (environment : Environment) (name : String) : Option FilePath :=
  (environment.text? name).map SystemText.ofText

/-- The folder that a variable names; an empty one names none. -/
def folder? (environment : Environment) (name : String) : Option FilePath :=
  (environment.value? name).filter fun value => !value.isEmpty

def home? (environment : Environment) : Option FilePath :=
  (environment.folder? "HOME").or environment.accountHome

/-- The folder that a variable names, or else one in the home folder. Without a home folder it is the one
that the process runs in. -/
def userDir (environment : Environment) (name : String) (inside : FilePath) : FilePath :=
  (environment.folder? name).getD
    ((environment.home?.map fun home => FilePath.join home inside).getD ".")

def dataDir (environment : Environment) : FilePath :=
  environment.userDir "XDG_DATA_HOME" ".local/share"

def configDir (environment : Environment) : FilePath :=
  environment.userDir "XDG_CONFIG_HOME" ".config"

def projectFolder : FilePath := "samplr"

def projectDataDir (environment : Environment) : FilePath :=
  FilePath.join environment.dataDir projectFolder

def projectConfigDir (environment : Environment) : FilePath :=
  FilePath.join environment.configDir projectFolder

def cloneRoot (environment : Environment) : FilePath :=
  FilePath.join environment.projectDataDir "repos"

def configFile (environment : Environment) : FilePath :=
  FilePath.join environment.projectConfigDir "config.toml"

end Environment

end SnippetTrail
