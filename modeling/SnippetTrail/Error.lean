/-!
# Errors

Everything that can go wrong, as causes. `message` gives the wording, and `causes` the chain from
an error to what lies beneath it.
-/

namespace SnippetTrail

inductive IoFault where
  | notPermitted
  | notFound
  | argumentsTooLong
  | notExecutable
  | permissionDenied
  | alreadyExists
  | notDirectory
  | isDirectory
  | invalidArgument
  | noSpace
  | nameTooLong
  | notEmpty
  | tooManyLinks
  | invalidName
  | invalidText
  | embeddedNul
  | other (text : String)
  deriving DecidableEq, Inhabited

def IoFault.message : IoFault → String
  | .notPermitted => "Operation not permitted (os error 1)"
  | .notFound => "No such file or directory (os error 2)"
  | .argumentsTooLong => "Argument list too long (os error 7)"
  | .notExecutable => "Exec format error (os error 8)"
  | .permissionDenied => "Permission denied (os error 13)"
  | .alreadyExists => "File exists (os error 17)"
  | .notDirectory => "Not a directory (os error 20)"
  | .isDirectory => "Is a directory (os error 21)"
  | .invalidArgument => "Invalid argument (os error 22)"
  | .noSpace => "No space left on device (os error 28)"
  | .nameTooLong => "File name too long (os error 36)"
  | .notEmpty => "Directory not empty (os error 39)"
  | .tooManyLinks => "Too many levels of symbolic links (os error 40)"
  | .invalidName => "Invalid or incomplete multibyte or wide character (os error 84)"
  | .invalidText => "stream did not contain valid UTF-8"
  | .embeddedNul => "file name contained an unexpected NUL byte"
  | .other text => text

inductive GitError where
  | spawn (command : String) (source : IoFault)
  | commandFailed (command : String) (code : Option Int) (stderr : String)
  | cancelled (command : String)
  | repositoryNotExists (dir : String)
  | invalidHash (text : String)
  | unreadable (path : String) (source : IoFault)
  | io (path : String) (source : IoFault)
  | join (reason : String)
  deriving DecidableEq

def showStatus : Option Int → String
  | some code => "Some(" ++ (match code with
    | .ofNat n => String.ofList (Nat.toDigits 10 n)
    | .negSucc n => "-" ++ String.ofList (Nat.toDigits 10 (n + 1))) ++ ")"
  | none => "None"

def GitError.message : GitError → String
  | .spawn command source => "Failed to spawn '" ++ command ++ "': " ++ source.message
  | .commandFailed command code stderr =>
    "'" ++ command ++ "' exited with status " ++ showStatus code ++ ": " ++ stderr
  | .cancelled command => "'" ++ command ++ "' was cancelled"
  | .repositoryNotExists dir => "Repository does not exist: " ++ dir
  | .invalidHash text => "Invalid hash: " ++ text
  | .unreadable path source => "Failed to read '" ++ path ++ "': " ++ source.message
  | .io path source => "I/O error on '" ++ path ++ "': " ++ source.message
  | .join reason => "Background git task failed: " ++ reason

def GitError.source? : GitError → Option IoFault
  | .spawn _ source => some source
  | .unreadable _ source => some source
  | .io _ source => some source
  | _ => none

inductive ExtractionError where
  | malformedMetadata
  deriving DecidableEq

def ExtractionError.message : ExtractionError → String
  | .malformedMetadata => "Malformed sample-metadata block"

inductive ConfigError where
  | loadFailed (reason : String)
  | parseFailed (reason : String)
  | invalidValue (key reason : String)
  | saveFailed (reason : String)
  | fileNotFound (path : String)
  deriving DecidableEq

def ConfigError.message : ConfigError → String
  | .loadFailed reason => "Failed to load configuration file: " ++ reason
  | .parseFailed reason => "Failed to parse configuration: " ++ reason
  | .invalidValue key reason => "Invalid configuration value for '" ++ key ++ "': " ++ reason
  | .saveFailed reason => "Failed to save configuration: " ++ reason
  | .fileNotFound path => "Configuration file not found: " ++ path

inductive CorpusError where
  | alreadyInitialized
  | alreadySyncing
  | invalidRepositoryUrl (url : String)
  | repoListFailed (path reason : String)
  deriving DecidableEq

def CorpusError.message : CorpusError → String
  | .alreadyInitialized => "multiple calls to initialize"
  | .alreadySyncing => "can't sync while already syncing"
  | .invalidRepositoryUrl url => "Not a GitHub repository URL: " ++ url
  | .repoListFailed path reason => "Failed to load repository list '" ++ path ++ "': " ++ reason

inductive ServiceError where
  | git (error : GitError)
  | extraction (error : ExtractionError)
  | config (error : ConfigError)
  | corpus (error : CorpusError)
  | io (fault : IoFault)
  | other (text : String)
  deriving DecidableEq

namespace ServiceError

def message : ServiceError → String
  | .git error => "Git error: " ++ error.message
  | .extraction error => "Extraction error: " ++ error.message
  | .config error => "Configuration error: " ++ error.message
  | .corpus error => "Corpus error: " ++ error.message
  | .io fault => "IO error: " ++ fault.message
  | .other text => text

/-- The message of the error that this one wraps, or its own. -/
def innerMessage : ServiceError → String
  | .git error => error.message
  | .config error => error.message
  | .corpus error => error.message
  | error => error.message

def causes : ServiceError → List String
  | .git error => error.message :: (error.source?.map (·.message)).toList
  | .extraction error => [error.message]
  | .config error => [error.message]
  | .corpus error => [error.message]
  | .io fault => [fault.message]
  | .other _ => []

/-- A failure reported as messages, the outermost first. -/
def ofReport (messages : List String) : ServiceError := .other (": ".intercalate messages)

def isCancelled : ServiceError → Bool
  | .git (.cancelled _) => true
  | _ => false

end ServiceError

end SnippetTrail
