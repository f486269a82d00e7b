/-!
Why reading or changing files fails, and how each failure is told.
-/

namespace TestJob

/-- A failure of the file system. -/
inductive IoError where
  | notFound
  | busy
  | notDirectory
  | isDirectory
  | nameTooLong
  /-- A path holds the byte zero. -/
  | zeroByte
  /-- A file that has to be text is not. -/
  | notUtf8
  /-- Any other failure, in the words of the system. -/
  | other (text : String)
deriving DecidableEq

namespace IoError

/-- The failure in words. -/
def message : IoError → String
  | notFound => "No such file or directory (os error 2)"
  | busy => "Device or resource busy (os error 16)"
  | notDirectory => "Not a directory (os error 20)"
  | isDirectory => "Is a directory (os error 21)"
  | nameTooLong => "File name too long (os error 36)"
  | zeroByte => "file name contained an unexpected NUL byte"
  | notUtf8 => "stream did not contain valid UTF-8"
  | other text => text

end IoError

end TestJob
