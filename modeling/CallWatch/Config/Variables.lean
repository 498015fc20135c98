import CallWatch.Config.Basic
import CallWatch.Event
import CallWatch.Text.Blank
import CallWatch.Text.Numeral

namespace CallWatch.Config

-- Variables that override the standard configuration.
def captureSiteVariable : String :=
  "WIRETAP_CAPTURE_CALL_SITE"

def captureTrafficVariable : String :=
  "WIRETAP_CAPTURE_TRAFFIC"

def mergeVariable : String :=
  "WIRETAP_PACKET_MERGE_THRESHOLD"

def threadLocalVariable : String :=
  "WIRETAP_THREAD_LOCAL_FAULTS"

def readBool? (text : List Char) : Option Bool :=
  if text = "true".toList then some true
  else if text = "false".toList then some false
  else none

def readCount? (text : List Char) : Option Count :=
  (Text.readNat? Count.limit text).bind Count.ofNat?

def ignored (name value : String) : Event :=
  ⟨.warn, "ignoring invalid configuration value", [("variable", name), ("value", value)]⟩

-- A value may stand between blanks. One that cannot be read is logged as it was
-- given, and passed over.
def setting {α : Type} (lookup : String → Option String) (name : String)
    (read? : List Char → Option α) : Option α × List Event :=
  match lookup name with
  | none => (none, [])
  | some raw =>
      match read? (Text.trim raw.toList) with
      | some value => (some value, [])
      | none => (none, [ignored name raw])

def ofVariables (lookup : String → Option String) : Config × List Event :=
  let (captureSite, e₁) := setting lookup captureSiteVariable readBool?
  let (captureTraffic, e₂) := setting lookup captureTrafficVariable readBool?
  let (millis, e₃) := setting lookup mergeVariable readCount?
  let (threadLocalFaults, e₄) := setting lookup threadLocalVariable readBool?
  (standard.override
    { captureSite, captureTraffic, threadLocalFaults
      mergeWithin := millis.map Span.ofMillis
      threads := none
      persistFaults := none },
    e₁ ++ e₂ ++ e₃ ++ e₄)

end CallWatch.Config
