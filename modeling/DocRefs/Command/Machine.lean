import DocRefs.Settings
import DocRefs.Text.Hex

/-!
# The machine that a command runs on

What a run of a command depends on: the environment, the disk, and for a watch what happens while it lasts. A machine is
described by a record, in which every field may be left out.
-/

namespace DocRefs

/-- One thing that happens during a watch, some seconds after the one before: the disk changes, and then the user ends
the watch or changes are reported. -/
structure WatchEvent where
  afterSeconds : Binary64
  change : Disk.Change := {}
  interrupt : Bool := false
  paths : Option (List String) := none

/-- What a run of a command depends on. -/
structure Machine where
  env : Environment
  disk : Disk
  events : List WatchEvent := []

namespace Checked

/-- A record whose fields have any names and hold what the check admits. -/
def tableOf {α : Type} (check : Value → Checked α) : Value → Checked (List (String × α))
  | .object fields => all (fields.map fun (name, v) => (under (.field name) (check v)).map (name, ·))
  | _ => refuse .dictType

/-- The bytes that a text writes in hexadecimal. -/
def hexBytes : Value → Checked (List UInt8)
  | .text s =>
    match Hex.bytes? s.toList with
    | some bytes => .ok bytes
    | none => refuse .bytesInvalidEncoding
  | _ => refuse .stringType

/-- The bytes of a file: a text stands for its UTF-8 form, other bytes are given in hexadecimal. -/
def content : Value → Checked (List UInt8)
  | .text s => .ok s.toUTF8.toList
  | v => required "hex" hexBytes v

/-- A list of paths. -/
def paths : Value → Checked (List String) :=
  listOf .listType text

/-- Changes to a disk. -/
def change (v : Value) : Checked Disk.Change :=
  (both (optional "dirs" [] paths v)
    (both (optional "files" [] (tableOf content) v)
      (both (optional "delete" [] paths v) (both (optional "deny" [] paths v) (optional "allow" [] paths v))))).map
    fun (directories, files, delete, deny, allow) => { directories, files, delete, deny, allow }

/-- Something that happens during a watch. -/
def watchEvent (v : Value) : Checked WatchEvent :=
  (both (optional "after" .zero number v)
    (both (optional "disk" {} change v)
      (both (optional "interrupt" false boolean v) (optional "changes" none (nullable paths) v)))).map
    fun (afterSeconds, change, interrupt, paths) => { afterSeconds, change, interrupt, paths }

/-- The homes of the accounts that a system has from the beginning. -/
def systemHomes : List (String × String) :=
  [("root", "/root"), ("daemon", "/usr/sbin"), ("bin", "/bin"), ("sys", "/dev"), ("sync", "/bin"),
    ("games", "/usr/games"),
    ("man", "/var/cache/man"), ("lp", "/var/spool/lpd"), ("mail", "/var/mail"), ("news", "/var/spool/news"),
    ("uucp", "/var/spool/uucp"), ("proxy", "/bin"), ("www-data", "/var/www"), ("backup", "/var/backups"),
    ("list", "/var/list"), ("irc", "/run/ircd"), ("_apt", "/nonexistent"), ("nobody", "/nonexistent")]

/-- The variables of an environment, and the homes of users by their names; the user's own home is one of the
variables. -/
def environment (v : Value) : Checked Environment :=
  (both (optional "cwd" "/" text v)
    (both (optional "env" [] (tableOf text) v) (optional "homes" systemHomes (tableOf text) v))).map fun (cwd,
        set, homes) =>
    let vars : Assoc String String := set.foldl (fun t (name, s) => t.insert name s) .empty
    { cwd, home := some ((vars.get? "HOME").getD "/"),
      homes := homes.foldl (fun t (name, s) => t.insert name s) .empty, vars }

/-- The machine that a record describes. -/
def machine (v : Value) : Checked Machine :=
  (both (environment v) (both (optional "disk" {} change v) (optional "events" [] (listOf .listType watchEvent) v))).map
    fun (env, made, events) => ⟨env, Disk.apply { cwd := env.cwd } made, events⟩

end Checked

end DocRefs
