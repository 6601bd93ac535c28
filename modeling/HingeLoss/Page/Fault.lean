import HingeLoss.Term.Record

/-! What can go wrong with a page file: the system refuses an operation, or there is no page. -/

namespace HingeLoss

/-- The reasons for which the system refuses a file operation. -/
inductive SystemFault where
  | notFound
  | alreadyExists
  | notFolder
  | isFolder
  | noDevice
  | notEmpty
  | invalidArgument
  | nameTooLong
  /-- The path has a character that ends every text of the system. -/
  | nullInName
  | other (text : String)
deriving DecidableEq

namespace SystemFault

def text : SystemFault → String
  | notFound => "No such file or directory (os error 2)"
  | alreadyExists => "File exists (os error 17)"
  | notFolder => "Not a directory (os error 20)"
  | isFolder => "Is a directory (os error 21)"
  | noDevice => "No such device (os error 19)"
  | notEmpty => "Directory not empty (os error 39)"
  | invalidArgument => "Invalid argument (os error 22)"
  | nameTooLong => "File name too long (os error 36)"
  | nullInName => "file name contained an unexpected NUL byte"
  | other text => text

end SystemFault

/-- The ways in which a page with a sound length can be damaged. -/
inductive PageDamage where
  | record (index : Nat) (fault : RecordFault)
  | trailing (bytes records : Nat)
  | count (held written : Nat)
  | tooLong (bytes : Nat)
  | other (text : String)
deriving DecidableEq

namespace PageDamage

def text : PageDamage → String
  | record index fault => s!"record {index}: " ++ fault.text
  | trailing bytes records => s!"{bytes} trailing bytes after {records} records"
  | count held written => s!"holds {held} terms, {written} were written"
  | tooLong bytes => s!"page of {bytes} bytes does not fit a u32 header"
  | other text => text

end PageDamage

inductive PageFault where
  | system (path : String) (fault : SystemFault)
  | shortRead (path : String) (expected actual : Nat)
  | shortWrite (path : String) (expected actual : Nat)
  | headerMismatch (path : String) (declared available : Nat)
  | corrupt (path : String) (damage : PageDamage)
  | poolOverflow (terms capacity : Nat)
deriving DecidableEq

namespace PageFault

def code : PageFault → String
  | system _ _ => "hlmrf::page::io"
  | shortRead _ _ _ => "hlmrf::page::short_read"
  | shortWrite _ _ _ => "hlmrf::page::short_write"
  | headerMismatch _ _ _ => "hlmrf::page::header_mismatch"
  | corrupt _ _ => "hlmrf::page::corrupt"
  | poolOverflow _ _ => "hlmrf::page::pool_overflow"

def message : PageFault → String
  | system path fault => "I/O error on term page " ++ path ++ ": " ++ fault.text
  | shortRead path expected actual =>
      s!"short read for page {path}: expected {expected} bytes, found {actual}"
  | shortWrite path expected actual =>
      s!"short write for page {path}: expected {expected} bytes, wrote {actual}"
  | headerMismatch path declared available =>
      s!"page {path} header declares {declared} term bytes but {available} bytes follow the header"
  | corrupt path damage => "corrupt term record in page " ++ path ++ ": " ++ damage.text
  | poolOverflow terms capacity =>
      s!"page of {terms} terms exceeds the pool capacity of {capacity}"

def help : PageFault → String
  | system _ _ =>
      "A page file operation failed. Check that the page directory exists, " ++
        "has correct permissions, and that the disk is not full."
  | shortRead _ _ _ =>
      "The page file is smaller than its header declares. Pages are private " ++
        "working state; re-ground the round instead of repairing the file."
  | shortWrite _ _ _ =>
      "The page file on disk does not hold the full page. Check free disk space."
  | headerMismatch _ _ _ =>
      "The page header and body disagree. The file was truncated or overwritten."
  | corrupt _ _ => "A term record could not be decoded. Re-ground the round."
  | poolOverflow _ _ =>
      "Pages must be read with the same `page_terms` budget they were written with."

/-- The text of the fault beneath this one. -/
def source : PageFault → Option String
  | system _ fault => some fault.text
  | _ => none

end PageFault

end HingeLoss
