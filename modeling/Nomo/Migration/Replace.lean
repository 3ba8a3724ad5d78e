import Nomo.Lib.Files

/-!
# Replacing several files

`nomo/src/project/module_root_migration.rs:270–380`: new contents are written next to the files, each
file is renamed to a backup and the new one onto its place, and the backups are removed.  When an
operation fails, what was done is undone.  The operation that fails is a parameter; a write that fails
leaves no file or a part of one.  `display` prints a path.
-/

namespace Nomo.Migration

open Nomo.Lib

/-- The name of a file; one that is no text is kept as its bytes. -/
inductive FileName where
  | text (name : String)
  | bytes (raw : List UInt8)
deriving DecidableEq, Repr

/-- The path of a file: its directory and its name. -/
structure Path where
  parent : String
  fileName : FileName
deriving DecidableEq, Repr

/-- `OsStr::to_str`. -/
def FileName.toStr : FileName → Option String
  | .text name => some name
  | .bytes _ => none

/-- `Path::with_file_name`. -/
def Path.withFileName (path : Path) (name : String) : Path := { path with fileName := .text name }

/-- `FileUpdate` (`module_root_migration.rs:17–22`). -/
structure FileUpdate where
  path : Path
  content : String
  original : String

/-- The operation that fails, with the text of its error; `left` is what a failed write leaves. -/
inductive Fault where
  | write (index : Nat) (err : String) (left : Option String)
  | backup (index : Nat) (err : String)
  | swap (index : Nat) (err : String)

/-- The text of the error for a file that is not there. -/
def notFound : String := "No such file or directory (os error 2)"

/-- `fs::write` of the new content. -/
def writeFile (fault : Option Fault) (index : Nat) (path : Path) (content : String)
    (disk : Disk Path String) : Except String Unit × Disk Path String :=
  match fault with
  | some (.write at_ err left) =>
    if at_ = index then
      (.error err, match left with
        | none => disk
        | some part => disk.write path part)
    else (.ok (), disk.write path content)
  | _ => (.ok (), disk.write path content)

/-- `fs::rename`, which fails with `failing` if that is an error. -/
def renameFile (failing : Option String) (source target : Path) (disk : Disk Path String) :
    Except String Unit × Disk Path String :=
  match failing with
  | some err => (.error err, disk)
  | none =>
    match disk.rename source target with
    | none => (.error notFound, disk)
    | some disk => (.ok (), disk)

/-- The error of the rename to the backup. -/
def backupFault (fault : Option Fault) (index : Nat) : Option String :=
  match fault with
  | some (.backup at_ err) => if at_ = index then some err else none
  | _ => none

/-- The error of the rename onto the place of the file. -/
def swapFault (fault : Option Fault) (index : Nat) : Option String :=
  match fault with
  | some (.swap at_ err) => if at_ = index then some err else none
  | _ => none

/-- The process, its clock and how paths are printed. -/
structure Environment where
  processId : Nat
  nonce : Except String Nat
  display : Path → String

variable (env : Environment)

/-- A name next to a file (`module_root_migration.rs:283–293`). -/
def generatedPath (processId nonce : Nat) (update : FileUpdate) (index : Nat) (extension : String) : Path :=
  let fileName := update.path.fileName.toStr.getD "source"
  update.path.withFileName s!".{fileName}.module-roots-{processId}-{nonce}-{index}.{extension}"

/-- The loop that writes the new contents (`module_root_migration.rs:281–310`). -/
def prepare (fault : Option Fault) (nonce : Nat) : Nat → List FileUpdate → List Path → List Path →
    Disk Path String → Except String (List Path × List Path) × Disk Path String
  | _, [], temporary, backups, disk => (.ok (temporary, backups), disk)
  | index, update :: rest, temporary, backups, disk =>
    let path := generatedPath env.processId nonce update index "tmp"
    let backup := generatedPath env.processId nonce update index "bak"
    match writeFile fault index path update.content disk with
    | (.error err, disk) =>
      (.error s!"failed to prepare module-root migration output {env.display path}: {err}",
        disk.removeAll temporary)
    | (.ok (), disk) =>
      prepare fault nonce (index + 1) rest (temporary ++ [path]) (backups ++ [backup]) disk

/-- One round of `rollback_updates` (`module_root_migration.rs:357–373`). -/
def rollbackUpdate (update : FileUpdate) (backup : Path) (disk : Disk Path String) :
    List String × Disk Path String :=
  match disk.remove update.path with
  | none => ([s!"failed to remove {env.display update.path}: {notFound}"], disk)
  | some disk =>
    match disk.rename backup update.path with
    | some disk => ([], disk)
    | none =>
      ([s!"failed to restore {env.display update.path} from {env.display backup}: {notFound}"],
        disk.write update.path update.original)

/-- The rounds of `rollback_updates`, the last update first. -/
def rollbackRounds : List (FileUpdate × Path) → Disk Path String → List String × Disk Path String
  | [], disk => ([], disk)
  | (update, backup) :: rest, disk =>
    let (failures, disk) := rollbackUpdate env update backup disk
    let (more, disk) := rollbackRounds rest disk
    (failures ++ more, disk)

/-- `rollback_updates` (`module_root_migration.rs:355–380`). -/
def rollbackUpdates (updates : List FileUpdate) (backups : List Path) (disk : Disk Path String) :
    Except String Unit × Disk Path String :=
  let (failures, disk) := rollbackRounds env (updates.zip backups).reverse disk
  (if failures.isEmpty then .ok () else .error ("; ".intercalate failures), disk)

/-- `result.err().map(f).unwrap_or_default()`. -/
def errText (result : Except String Unit) (text : String → String) : String :=
  match result with
  | .ok () => ""
  | .error message => text message

/-- The loop that replaces the files (`module_root_migration.rs:311–347`). -/
def replaceLoop (fault : Option Fault) (updates : List FileUpdate) (temporary backups : List Path) :
    Nat → List ((FileUpdate × Path) × Path) → Disk Path String → Except String Unit × Disk Path String
  | _, [], disk => (.ok (), disk)
  | index, ((update, temporaryPath), backupPath) :: rest, disk =>
    match renameFile (backupFault fault index) update.path backupPath disk with
    | (.error err, disk) =>
      let (rollback, disk) := rollbackUpdates env (updates.take index) (backups.take index) disk
      let disk := disk.removeAll (temporary.drop index)
      (.error (s!"failed to prepare {env.display update.path} for module-root migration: {err}" ++
        errText rollback fun message => s!"; rollback also failed: {message}"), disk)
    | (.ok (), disk) =>
      match renameFile (swapFault fault index) temporaryPath update.path disk with
      | (.error err, disk) =>
        let (restored, disk) := renameFile none backupPath update.path disk
        let currentRestore := errText restored fun restore =>
          s!"; failed to restore {env.display update.path} after replacement error: {restore}"
        let (rollback, disk) := rollbackUpdates env (updates.take index) (backups.take index) disk
        let disk := disk.removeAll (temporary.drop (index + 1))
        (.error (s!"failed to replace {env.display update.path} during module-root migration: {err}" ++
          currentRestore ++ errText rollback fun message => s!"; rollback also failed: {message}"), disk)
      | (.ok (), disk) => replaceLoop fault updates temporary backups (index + 1) rest disk

/-- `replace_files_atomically` (`module_root_migration.rs:270–352`). -/
def replaceFilesAtomically (fault : Option Fault) (updates : List FileUpdate) (disk : Disk Path String) :
    Except String Unit × Disk Path String :=
  if updates.isEmpty then (.ok (), disk)
  else
    match env.nonce with
    | .error err => (.error err, disk)
    | .ok nonce =>
      match prepare env fault nonce 0 updates [] [] disk with
      | (.error err, disk) => (.error err, disk)
      | (.ok (temporary, backups), disk) =>
        match replaceLoop env fault updates temporary backups 0 ((updates.zip temporary).zip backups) disk with
        | (.error err, disk) => (.error err, disk)
        | (.ok (), disk) => (.ok (), disk.removeAll backups)

end Nomo.Migration
