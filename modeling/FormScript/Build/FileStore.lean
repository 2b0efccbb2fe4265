import FormScript.Build.Path

/-!
# File stores

What a build needs of a file system, in any monad: to ask what a path names, and to open, read, write and
remove files. Every operation can fail, and says why it did.
-/

namespace FormScript.Build

/-- Why a file cannot be used. -/
inductive FileFault where
  | notFound
  | notADirectory
  | isADirectory
  /-- The path, or a name in it, has more bytes than a file system takes. -/
  | nameTooLong
  /-- The path holds the character that ends a path for the system. -/
  | nulInPath
  /-- The content has more bytes than a file may have. -/
  | fileTooLarge
  /-- The content is not valid text. -/
  | notText
  /-- Any other refusal, in the words of the system. -/
  | refused (reason : String)
deriving DecidableEq

namespace FileFault

def message : FileFault → String
  | .notFound => "No such file or directory (os error 2)"
  | .notADirectory => "Not a directory (os error 20)"
  | .isADirectory => "Is a directory (os error 21)"
  | .nameTooLong => "File name too long (os error 36)"
  | .nulInPath => "file name contained an unexpected NUL byte"
  | .fileTooLarge => "File too large (os error 27)"
  | .notText => "stream did not contain valid UTF-8"
  | .refused reason => reason

end FileFault

/-- What a path can name. -/
inductive FileKind where
  | file
  | folder
deriving DecidableEq

/-- A file system in the monad `m`. -/
class FileStore (m : Type → Type) where
  /-- What a path names. -/
  kindOf : Path → m (Except FileFault FileKind)
  /-- Opens what a path names to read it, and reads nothing. -/
  openToRead : Path → m (Except FileFault Unit)
  /-- The content of a file. -/
  read : Path → m (Except FileFault ByteArray)
  /-- Makes the content the whole content of a file, which need not exist. -/
  write : Path → ByteArray → m (Except FileFault Unit)
  /-- Removes a file. -/
  remove : Path → m (Except FileFault Unit)

end FormScript.Build
