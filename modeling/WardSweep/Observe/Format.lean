import WardSweep.Json.Read

/-!
# The files of the harness

What a snapshot and a diff are in JSON: the fields of each structure, in the order they are declared
in, and the words of each enumeration.
-/

namespace WardSweep.Observe

open Utf8 Json

/-! ## Enumerations -/

def changeKindWords : List Text := ["added", "removed", "modified"].map String.toList

def domainWords : List Text :=
  ["services", "registry", "filesystem", "scheduled_tasks", "firewall", "event_sources",
    "environment"].map String.toList

def launcherWords : List Text := ["steam", "epic"].map String.toList

def readChangeKind : Reader := readWord changeKindWords
def readDomain : Reader := readWord domainWords
def readLauncher : Reader := readWord launcherWords

/-! ## Fields -/

/-- A field that has to be there. -/
def required (key : String) (reader : Reader) : Field := ⟨key.toList, .never, reader⟩

/-- A field that may be null, or left out among named fields. -/
def optional (key : String) (reader : Reader) : Field := ⟨key.toList, .named, readOption reader⟩

/-- A field with a default. -/
def defaulted (key : String) (reader : Reader) : Field := ⟨key.toList, .always, reader⟩

/-- An unsigned integer as wide as a pointer. -/
def readUsize : Reader := readUnsigned 64

/-! ## Records -/

def readAccessDenied : Reader :=
  readStruct true
    [required "domain" readDomain, required "item" readString, required "reason" readString]

def readCoverage : Reader :=
  readStruct true
    [required "captured" (readList readDomain), required "not_captured" (readList readDomain),
      required "access_denied" (readList readAccessDenied)]

def readRegistryKeyRef : Reader :=
  readStruct true [required "key" readString, required "view" readString]

def readBootSession : Reader :=
  readStruct false
    [required "started_utc" readString, required "started_unix_ms" (readUnsigned 64),
      required "uptime_ms" (readUnsigned 64)]

def readLibrary : Reader :=
  readStruct true [required "launcher" readLauncher, required "path" readString]

def readFilesystemPolicy : Reader :=
  readStruct true
    [required "roots" (readList readString), required "excluded" (readList readString),
      required "hashed_extensions" (readList readString),
      required "max_hash_bytes" (readUnsigned 64),
      defaulted "libraries" (readList readLibrary)]

def readRegistryPolicy : Reader :=
  readStruct true
    [required "roots" (readList readString), required "views" (readList readString),
      required "excluded" (readList readString), required "max_value_bytes" (readUnsigned 64)]

def readRegistryValue : Reader :=
  readStruct true
    [required "name" readString, required "kind" readString, required "data" readString,
      defaulted "oversized_bytes" (readOption (readUnsigned 64))]

def readRegistryRecord : Reader :=
  readStruct true
    [required "key" readString, required "view" readString,
      required "values" (readList readRegistryValue)]

def readFileRecord : Reader :=
  readStruct true
    [required "path" readString, required "size" (readUnsigned 64),
      defaulted "modified_utc" readString, defaulted "sha256" (readOption readString),
      defaulted "signer" (readOption readString), defaulted "not_hashed" (readOption readString)]

def readServiceRecord : Reader :=
  readStruct true
    [required "name" readString, required "display_name" readString,
      required "service_type" readString, required "start_type" readString,
      required "error_control" readString, required "binary_path" readString,
      defaulted "load_order_group" readString, defaulted "start_name" readString,
      defaulted "dependencies" (readList readString), defaulted "description" readString,
      defaulted "delayed_auto_start" readBool]

/-! ## A snapshot -/

def readSnapshot : Reader :=
  readStruct true
    [required "format_version" (readUnsigned 32), required "taken_utc" readString,
      defaulted "domain_started_utc" (readMap readString),
      defaulted "boot_session" (readOption readBootSession), required "harness_version" readString,
      defaulted "label" readString, required "coverage" readCoverage,
      defaulted "services" (readList readServiceRecord),
      defaulted "files" (readList readFileRecord),
      defaulted "registry" (readList readRegistryRecord),
      defaulted "registry_policy" (readOption readRegistryPolicy),
      defaulted "filesystem_policy" (readOption readFilesystemPolicy),
      defaulted "file_empty_directories" (readOption (readList readString)),
      defaulted "registry_empty_keys" (readOption (readList readRegistryKeyRef))]

/-! ## A diff -/

def readFieldChange : Reader :=
  readStruct true
    [required "field" readString, required "before" readString, required "after" readString]

def readServiceChange : Reader :=
  readStruct true
    [required "name" readString, required "kind" readChangeKind, required "is_driver" readBool,
      required "is_boot_start" readBool, optional "before" readServiceRecord,
      optional "after" readServiceRecord, defaulted "fields" (readList readFieldChange)]

def readFileChange : Reader :=
  readStruct true
    [required "path" readString, required "kind" readChangeKind,
      defaulted "signer" (readOption readString), required "is_driver_image" readBool,
      optional "before" readFileRecord, optional "after" readFileRecord,
      defaulted "fields" (readList readFieldChange)]

def readRegistryChange : Reader :=
  readStruct true
    [required "key" readString, required "view" readString, required "kind" readChangeKind,
      optional "before" readRegistryRecord, optional "after" readRegistryRecord,
      defaulted "fields" (readList readFieldChange)]

def readSuppressed : Reader :=
  readStruct true [required "rule" readString, required "change" readServiceChange]

def readSuppressedFile : Reader :=
  readStruct true [required "rule" readString, required "change" readFileChange]

def readRefiltered : Reader :=
  readStruct true
    [defaulted "registry_records" readUsize, defaulted "registry_values" readUsize,
      defaulted "access_denied" readUsize, defaulted "emptied_keys" readUsize,
      defaulted "files" readUsize, defaulted "emptied_directories" readUsize]

def readFootprint : Reader :=
  readStruct true
    [required "before_taken_utc" readString, required "after_taken_utc" readString,
      required "changes" readUsize]

def readDiff : Reader :=
  readStruct true
    [required "format_version" (readUnsigned 32),
      defaulted "snapshot_format_version" (readUnsigned 32), required "before_taken_utc" readString,
      required "after_taken_utc" readString, defaulted "rebooted_between" (readOption readBool),
      defaulted "emptied_directories" (readOption (readList readString)),
      defaulted "emptied_keys" (readOption (readList readRegistryKeyRef)),
      defaulted "formerly_empty_directories" (readOption (readList readString)),
      defaulted "formerly_empty_keys" (readOption (readList readRegistryKeyRef)),
      required "coverage" readCoverage, required "services" (readList readServiceChange),
      required "suppressed" (readList readSuppressed), defaulted "files" (readList readFileChange),
      defaulted "suppressed_files" (readList readSuppressedFile),
      defaulted "registry" (readList readRegistryChange),
      defaulted "registry_policy_changed" readBool, defaulted "filesystem_policy_changed" readBool,
      defaulted "libraries" (readList readLibrary), defaulted "signers" (readMap readUsize),
      defaulted "refiltered" readRefiltered,
      defaulted "intersection_of" (readOption (readList readFootprint))]

end WardSweep.Observe
