import WardSweep.Rust.Utf8

/-!
# The compiled-in tables

The locations, file names and service names the deny-list is made of, as the program writes them.
-/

namespace WardSweep.Denylist

open Utf8

/-- Minimum number of components below a drive root before a path may be touched. -/
def minComponentsUnderDriveRoot : ℕ := 2

/-- Top-level directories refused as whole subtrees, on every drive. -/
def protectedTopLevel : List Text :=
  ["WINDOWS", "WINNT", "$RECYCLE.BIN", "SYSTEM VOLUME INFORMATION", "RECOVERY", "BOOT", "EFI",
    "PERFLOGS", "$WINDOWS.~BT", "$WINDOWS.~WS"].map String.toList

/-- Top-level directories that hold other software, and are never removed themselves. -/
def containerTopLevel : List Text :=
  ["USERS", "PROGRAMDATA", "PROGRAM FILES", "PROGRAM FILES (X86)",
    "DOCUMENTS AND SETTINGS"].map String.toList

/-- Deeper directories refused as a whole and never below; `*` matches any one component. -/
def containers : List (List Text) :=
  [["USERS", "*"],
    ["USERS", "*", "APPDATA"],
    ["USERS", "*", "APPDATA", "LOCAL"],
    ["USERS", "*", "APPDATA", "LOCALLOW"],
    ["USERS", "*", "APPDATA", "ROAMING"],
    ["USERS", "*", "APPDATA", "LOCAL", "PROGRAMS"],
    ["USERS", "*", "APPDATA", "LOCAL", "PACKAGES"],
    ["USERS", "*", "APPDATA", "LOCAL", "TEMP"],
    ["USERS", "*", "CONTACTS"],
    ["USERS", "*", "DESKTOP"],
    ["USERS", "*", "DOCUMENTS"],
    ["USERS", "*", "DOCUMENTS", "MY GAMES"],
    ["USERS", "*", "DOWNLOADS"],
    ["USERS", "*", "FAVORITES"],
    ["USERS", "*", "LINKS"],
    ["USERS", "*", "MUSIC"],
    ["USERS", "*", "ONEDRIVE"],
    ["USERS", "*", "PICTURES"],
    ["USERS", "*", "SAVED GAMES"],
    ["USERS", "*", "SEARCHES"],
    ["USERS", "*", "VIDEOS"],
    ["PROGRAM FILES", "COMMON FILES"],
    ["PROGRAM FILES (X86)", "COMMON FILES"],
    ["PROGRAMDATA", "PACKAGE CACHE"],
    ["PROGRAM FILES", "STEAM"],
    ["PROGRAM FILES (X86)", "STEAM"]].map fun pattern ↦ pattern.map String.toList

/-- Final components that name a game library wherever it lives. -/
def libraryLeaves : List Text :=
  ["STEAMLIBRARY", "STEAMAPPS", "EPIC GAMES"].map String.toList

/-- Directories directly inside a Steam library's `steamapps`. -/
def steamappsContainers : List Text :=
  ["COMMON", "COMPATDATA", "DOWNLOADING", "SHADERCACHE", "SOURCEMODS", "TEMP",
    "WORKSHOP"].map String.toList

/-- Subtrees Windows owns, refused at any depth. -/
def windowsData : List (List Text) :=
  [["USERS", "*", "APPDATA", "LOCAL", "MICROSOFT"],
    ["USERS", "*", "APPDATA", "LOCALLOW", "MICROSOFT"],
    ["USERS", "*", "APPDATA", "ROAMING", "MICROSOFT"],
    ["PROGRAM FILES", "WINDOWSAPPS"],
    ["PROGRAM FILES", "WINDOWS DEFENDER"],
    ["PROGRAM FILES", "WINDOWS DEFENDER ADVANCED THREAT PROTECTION"],
    ["PROGRAM FILES (X86)", "WINDOWS DEFENDER"]].map fun pattern ↦ pattern.map String.toList

/-- File names of user registry hives, matched as a prefix of the final component. -/
def userHiveFiles : List Text :=
  ["NTUSER.DAT", "USRCLASS.DAT"].map String.toList

/-- Driver files that ship with Windows. -/
def inboxDrivers : List Text :=
  ["ACPI.SYS", "ACPIEX.SYS", "AFD.SYS", "AMDPPM.SYS", "BEEP.SYS", "BINDFLT.SYS", "BOWSER.SYS",
    "CDFS.SYS", "CDROM.SYS", "CLASSPNP.SYS", "CLFS.SYS", "CLIPSP.SYS", "CNG.SYS", "DISK.SYS",
    "DXGKRNL.SYS", "DXGMMS2.SYS", "EXFAT.SYS", "FASTFAT.SYS", "FILECRYPT.SYS", "FILEINFO.SYS",
    "FLTMGR.SYS", "FVEVOL.SYS", "HIDCLASS.SYS", "HIDPARSE.SYS", "HTTP.SYS", "I8042PRT.SYS",
    "INTELPPM.SYS", "KBDCLASS.SYS", "KBDHID.SYS", "KSECDD.SYS", "KSECPKG.SYS", "MOUCLASS.SYS",
    "MOUHID.SYS", "MOUNTMGR.SYS", "MRXSMB.SYS", "MSRPC.SYS", "MUP.SYS", "NDIS.SYS", "NETBT.SYS",
    "NETIO.SYS", "NPFS.SYS", "NSIPROXY.SYS", "NTFS.SYS", "NULL.SYS", "PARTMGR.SYS", "PCI.SYS",
    "PDC.SYS", "RDBSS.SYS", "REFS.SYS", "SPACEPORT.SYS", "SRV2.SYS", "SRVNET.SYS", "STORAHCI.SYS",
    "STORNVME.SYS", "STORPORT.SYS", "TCPIP.SYS", "TDX.SYS", "TM.SYS", "TPM.SYS", "UCX01000.SYS",
    "UDFS.SYS", "USBHUB3.SYS", "USBSTOR.SYS", "USBXHCI.SYS", "VHDMP.SYS", "VOLMGR.SYS",
    "VOLMGRX.SYS", "VOLSNAP.SYS", "VOLUME.SYS", "WCIFS.SYS", "WDBOOT.SYS", "WDF01000.SYS",
    "WDFILTER.SYS", "WDFLDR.SYS", "WDNISDRV.SYS", "WFPLWFS.SYS", "WOF.SYS"].map String.toList

/-- Services and drivers that ship with Windows. -/
def inboxServices : List Text :=
  ["ACPI", "AFD", "APPXSVC", "BEEP", "BFE", "BROKERINFRASTRUCTURE", "CLIPSVC", "CNG",
    "COREMESSAGINGREGISTRAR", "CRYPTSVC", "DCOMLAUNCH", "DHCP", "DISK", "DNSCACHE", "EVENTLOG",
    "FASTFAT", "FILEINFO", "FLTMGR", "FVEVOL", "GPSVC", "KEYISO", "KSECDD", "KSECPKG",
    "LANMANSERVER", "LANMANWORKSTATION", "LSM", "MOUNTMGR", "MPSDRV", "MPSSVC", "MSRPC", "NDIS",
    "NETBT", "NPFS", "NSI", "NTFS", "NULL", "PARTMGR", "PCI", "PLUGPLAY", "POWER", "PROFSVC",
    "REFS", "RPCEPTMAPPER", "RPCSS", "SAMSS", "SCHEDULE", "SECURITYHEALTHSERVICE", "SENSE",
    "SPACEPORT", "STATEREPOSITORY", "STORAHCI", "STORNVME", "SYSTEMEVENTSBROKER", "TCPIP",
    "TCPIP6", "TDX", "TOKENBROKER", "TPM", "TRUSTEDINSTALLER", "USERMANAGER", "VAULTSVC",
    "VOLMGR", "VOLMGRX", "VOLSNAP", "VOLUME", "W32TIME", "WDBOOT", "WDF01000", "WDFILTER",
    "WDNISDRV", "WDNISSVC", "WINDEFEND", "WINMGMT", "WLIDSVC", "WOF",
    "WUAUSERV"].map String.toList

/-- Keys below `HKLM` that hold other software's keys, refused as a whole. -/
def machineContainerKeys : List (List Text) :=
  [["SOFTWARE", "CLASSES"],
    ["SOFTWARE", "CLASSES", "APPID"],
    ["SOFTWARE", "CLASSES", "CLSID"],
    ["SOFTWARE", "CLASSES", "INTERFACE"],
    ["SOFTWARE", "CLASSES", "TYPELIB"],
    ["SOFTWARE", "CLIENTS"],
    ["SOFTWARE", "MICROSOFT"],
    ["SOFTWARE", "MICROSOFT", "WINDOWS"],
    ["SOFTWARE", "MICROSOFT", "WINDOWS", "CURRENTVERSION"],
    ["SOFTWARE", "MICROSOFT", "WINDOWS", "CURRENTVERSION", "APP PATHS"],
    ["SOFTWARE", "MICROSOFT", "WINDOWS", "CURRENTVERSION", "EXPLORER"],
    ["SOFTWARE", "MICROSOFT", "WINDOWS", "CURRENTVERSION", "RUN"],
    ["SOFTWARE", "MICROSOFT", "WINDOWS", "CURRENTVERSION", "RUNONCE"],
    ["SOFTWARE", "MICROSOFT", "WINDOWS", "CURRENTVERSION", "SHAREDDLLS"],
    ["SOFTWARE", "MICROSOFT", "WINDOWS", "CURRENTVERSION", "UNINSTALL"],
    ["SOFTWARE", "MICROSOFT", "WINDOWS NT"],
    ["SOFTWARE", "MICROSOFT", "WINDOWS NT", "CURRENTVERSION"],
    ["SOFTWARE", "MICROSOFT", "WINDOWS NT", "CURRENTVERSION", "IMAGE FILE EXECUTION OPTIONS"],
    ["SOFTWARE", "POLICIES"],
    ["SOFTWARE", "POLICIES", "MICROSOFT"],
    ["SOFTWARE", "REGISTEREDAPPLICATIONS"],
    ["SOFTWARE", "WOW6432NODE"]].map fun pattern ↦ pattern.map String.toList

/-- Subtrees below `HKLM` that Windows owns, refused at any depth. -/
def machineProtectedKeys : List (List Text) :=
  [["SOFTWARE", "MICROSOFT", "CRYPTOGRAPHY"],
    ["SOFTWARE", "MICROSOFT", "WINDOWS NT", "CURRENTVERSION", "WINLOGON"],
    ["SOFTWARE", "MICROSOFT", "WINDOWS DEFENDER"],
    ["SOFTWARE", "POLICIES", "MICROSOFT", "WINDOWS DEFENDER"]].map
    fun pattern ↦ pattern.map String.toList

/-- Keys below a user's root that hold other software's keys, refused as a whole. -/
def userContainerKeys : List (List Text) :=
  [["SOFTWARE", "CLASSES"],
    ["SOFTWARE", "CLASSES", "CLSID"],
    ["SOFTWARE", "MICROSOFT"],
    ["SOFTWARE", "MICROSOFT", "WINDOWS"],
    ["SOFTWARE", "MICROSOFT", "WINDOWS", "CURRENTVERSION"],
    ["SOFTWARE", "MICROSOFT", "WINDOWS", "CURRENTVERSION", "RUN"],
    ["SOFTWARE", "MICROSOFT", "WINDOWS", "CURRENTVERSION", "RUNONCE"],
    ["SOFTWARE", "MICROSOFT", "WINDOWS", "CURRENTVERSION", "UNINSTALL"],
    ["SOFTWARE", "POLICIES"],
    ["SOFTWARE", "WOW6432NODE"]].map fun pattern ↦ pattern.map String.toList

/-- Hives below `HKLM` that are never footprint, refused at any depth. -/
def protectedMachineHives : List Text :=
  ["SAM", "SECURITY", "HARDWARE", "COMPONENTS", "DRIVERS"].map String.toList


end WardSweep.Denylist
