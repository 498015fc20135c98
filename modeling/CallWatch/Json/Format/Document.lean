import CallWatch.Fault.Document
import CallWatch.Json.Format.Basic
import CallWatch.Text.Blank

namespace CallWatch.Json.Format

open CallWatch.Fault

def unknownStatus (text : List Char) : Defect :=
  .unsuitable (some (String.ofList ("unknown connection status \x60".toList ++ text ++ ['\x60'])))

def readStatus : Reader Status := do
  let text ← Reader.text
  match Status.read? text with
  | some status => pure status
  | none => Reader.fail (unknownStatus text)

def status : Format Status :=
  ⟨fun s => Writer.text s.write, readStatus⟩

def invalidPort (text : List Char) : Defect :=
  .unsuitable (some (String.ofList ("invalid port \x60".toList ++ text ++ ['\x60'])))

def portOfNat? (n : Nat) : Option UInt16 :=
  if n ≤ 65535 then some (UInt16.ofNat n) else none

-- A port is a number, or a numeral in a string, which may stand between blanks. What
-- else stands in its place is read to its end before it is refused.
def readPort (depth : Nat) : Reader (Option UInt16) := do
  match ← Reader.token? with
  | none => Reader.fail .ended
  | some 'n' => do
      Reader.literal "null".toList
      pure none
  | some '"' => do
      let text ← Reader.text
      match (Text.readNat? 65535 (CallWatch.Text.trim text)).bind portOfNat? with
      | some port => pure (some port)
      | none => Reader.fail (invalidPort text)
  | some c =>
      if Reader.isNumberStart c then
        match ← Number.read with
        | .whole (.ofNat n) =>
            match portOfNat? n with
            | some port => pure (some port)
            | none => Reader.unsuitable
        | _ => Reader.unsuitable
      else do
        Reader.skipValue (.full depth)
        Reader.unsuitable

def given (name : String) (value : Option (List Char)) : List (String × List Char) :=
  (value.map (name, ·)).toList

structure SocketEntryDraft where
  host : Option (Option String)
  port : Option (Option UInt16)
  status : Option Status

def SocketEntryDraft.finish (d : SocketEntryDraft) : Option SocketEntry := do
  pure ⟨d.host.getD none, d.port.getD none, ← d.status⟩

-- The depth is that of the containers around the entry.
def socketEntryForm (depth : Nat) : Form SocketEntryDraft SocketEntry where
  blank := ⟨none, none, none⟩
  fields :=
    [.of "host" (·.host) (fun d x => { d with host := some x }) (Reader.option Reader.string),
      .of "port" (·.port) (fun d x => { d with port := some x }) (readPort (depth + 1)),
      .of "status" (·.status) (fun d x => { d with status := some x }) readStatus]
  isClosed := false
  finish := SocketEntryDraft.finish

def writeSocketEntry (e : SocketEntry) : List Char :=
  Writer.object (given "host" (e.host.map Writer.string) ++
    given "port" (e.port.map fun n => Writer.natural n.toNat) ++
    [("status", status.write e.status)])

def socketEntry : Format SocketEntry :=
  ⟨writeSocketEntry, (socketEntryForm 0).read⟩

structure SourceEntryDraft where
  url : Option (Option String)
  user : Option (Option String)
  status : Option Status

def SourceEntryDraft.finish (d : SourceEntryDraft) : Option SourceEntry := do
  pure ⟨d.url.getD none, d.user.getD none, ← d.status⟩

def sourceEntryForm : Form SourceEntryDraft SourceEntry where
  blank := ⟨none, none, none⟩
  fields :=
    [.of "url" (·.url) (fun d x => { d with url := some x }) (Reader.option Reader.string),
      .of "userName" (·.user) (fun d x => { d with user := some x }) (Reader.option Reader.string),
      .of "status" (·.status) (fun d x => { d with status := some x }) readStatus]
  isClosed := false
  finish := SourceEntryDraft.finish

def writeSourceEntry (e : SourceEntry) : List Char :=
  Writer.object (given "url" (e.url.map Writer.string) ++
    given "userName" (e.user.map Writer.string) ++ [("status", status.write e.status)])

def sourceEntry : Format SourceEntry :=
  ⟨writeSourceEntry, sourceEntryForm.read⟩

structure DocumentDraft where
  persistent : Option Bool
  sockets : Option (List SocketEntry)
  sources : Option (List SourceEntry)

def DocumentDraft.finish (d : DocumentDraft) : Document :=
  ⟨d.persistent.getD false, d.sockets.getD [], d.sources.getD []⟩

def documentForm : Form DocumentDraft Document where
  blank := ⟨none, none, none⟩
  fields :=
    [.of "persistent" (·.persistent) (fun d b => { d with persistent := some b }) Reader.bool,
      .of "sockets" (·.sockets) (fun d xs => { d with sockets := some xs })
        (Reader.list (socketEntryForm 2).read),
      .of "dataSources" (·.sources) (fun d xs => { d with sources := some xs })
        (Reader.list sourceEntryForm.read)]
  isClosed := false
  finish d := some d.finish

-- A list without entries is left out.
def writeList {α : Type} (name : String) (write : α → List Char) (items : List α) :
    List (String × List Char) :=
  match items with
  | [] => []
  | items => [(name, Writer.array (items.map write))]

def document : Format Document where
  write d := Writer.object (("persistent", Writer.bool d.persistent) ::
    writeList "sockets" writeSocketEntry d.sockets ++
    writeList "dataSources" writeSourceEntry d.sources)
  read := documentForm.read

end CallWatch.Json.Format
