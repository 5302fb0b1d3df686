import Briefing.Files.Disk

/-!
# Standard places

What every machine has before anything is put on it: the directories of the system, links between
some of them, and devices.
-/

namespace Briefing.Disk

/-- The directories of the system. -/
def standardDirectories : List String :=
  ["boot", "dev", "dev/pts", "dev/shm", "etc", "home", "media", "mnt", "opt", "proc", "root", "run",
    "run/lock", "srv", "sys", "usr", "usr/bin", "usr/games", "usr/include", "usr/lib",
    "usr/lib64", "usr/libexec", "usr/local", "usr/local/bin", "usr/local/lib", "usr/local/sbin",
    "usr/local/share", "usr/sbin", "usr/share", "usr/src", "var", "var/cache", "var/lib",
    "var/log", "var/mail", "var/opt", "var/spool"]

/-- The directories in which everyone may put files of their own. -/
def sharedDirectories : List String := ["tmp", "var/tmp"]

/-- The permission bits of shared directories: only the owner of a file may remove it. -/
def sharedMode : Nat := 0o1777

/-- Links, with what they lead to. -/
def standardLinks : List (String × String) :=
  [("bin", "usr/bin"), ("lib", "usr/lib"), ("lib64", "usr/lib64"), ("sbin", "usr/sbin"),
    ("var/lock", "/run/lock"), ("var/run", "/run")]

/-- Zeros, as many as are ever read of a device that has no end. -/
def endlessZeros : ByteArray := ⟨Array.replicate 1048576 0⟩

/-- Devices, with what is read from them. -/
def standardDevices : List (String × ByteArray) :=
  [("dev/null", ByteArray.empty), ("dev/zero", endlessZeros)]

/-- What every machine has. -/
def standard : List (Location × Entry) :=
  standardDirectories.map (steps ·, .directory directoryMode) ++
    sharedDirectories.map (steps ·, .directory sharedMode) ++
    standardLinks.map (fun (path, target) => (steps path, .link target)) ++
    standardDevices.map fun (path, contents) => (steps path, .device contents)

end Briefing.Disk
