/-!
# File errors

Why the bytes at a path, or the text in them, could not be had.
-/

namespace Clausal

/-- The cause of a failed file operation. -/
inductive FileError
  /-- The bytes of a line are not UTF-8. -/
  | notUtf8
  /-- There is no such file, or a directory on the way to it is missing. -/
  | notFound
  /-- The file may not be used. -/
  | notPermitted
  /-- A step on the way is a file, or a file is named as a directory. -/
  | notDirectory
  /-- The path names a directory. -/
  | isDirectory
  /-- The device is full. -/
  | noSpace
  /-- The path or a name in it is too long. -/
  | nameTooLong
  /-- The path holds a null character. -/
  | nullInPath
  /-- The other end of a pipe is closed. -/
  | brokenPipe
  /-- Any other cause, in the words of the system. -/
  | other (text : String)
deriving DecidableEq

def FileError.message : FileError → String
  | notUtf8 => "stream did not contain valid UTF-8"
  | notFound => "No such file or directory (os error 2)"
  | notPermitted => "Permission denied (os error 13)"
  | notDirectory => "Not a directory (os error 20)"
  | isDirectory => "Is a directory (os error 21)"
  | noSpace => "No space left on device (os error 28)"
  | nameTooLong => "File name too long (os error 36)"
  | nullInPath => "file name contained an unexpected NUL byte"
  | brokenPipe => "Broken pipe (os error 32)"
  | other text => text

end Clausal
