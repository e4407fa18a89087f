/-
  FuseNt.Driver.ModuleMap

  The table of mounted modules (hashmap.cc), and the dispatch routines that go
  through it (fuseio.cc): `FuseAddUserspaceIrp` queues a request for the
  module whose name its path starts with, `FuseFsdFileSystemControl` mounts a
  module and takes its requests for work and its responses, and
  `FuseCheckUnmountModule` dismounts a module when the handle it was mounted
  with is closed.

  The table is an open-addressed map from names to `MODULE_STRUCT`s.  A name
  can be mounted more than once; a removed entry keeps its slot, with a null
  key.  The keys are compared as the strings they point to.
-/

import FuseNt.Driver.Io
import FuseNt.Lib.OpenAddressing

namespace FuseNt

open FuseNt.Lib

-- ============================================================================
-- The hash map
-- ============================================================================

/-- `HMAP_PRESET_SIZE`: `HMAP_PAGE_SIZE` divided by the size of two pointers. -/
def hmapPresetSize : Nat := 1024 / (2 * 8)

/-- The driver: kernel memory, the `MODULE_STRUCT`s in pool memory, and the
    slots and the `size` of `ModuleMap`. -/
structure Driver where
  world : World
  modules : Addr → Option ModuleStruct
  map : Table (List Wchar) Addr
  size : UInt32

/-- `WCHAR*` of a NUL-terminated string. -/
def keyChars (key : List Wchar) : Nat → Wchar := fun i => key.getD i 0

namespace Driver

/-- Store a `MODULE_STRUCT`, or free it. -/
def setModule (d : Driver) (a : Addr) (ms : Option ModuleStruct) : Driver :=
  { d with modules := fun b => if b = a then ms else d.modules b }

/-- The call `hash_fn(in) % capacity`, with the static character of the hash
    function. -/
def hashSlot (fuel : Nat) (d : Driver) (key : List Wchar) : Option (Nat × Wchar) := do
  let (hash, c) ← strHashFn fuel d.world.strHashC (keyChars key)
  some (hash.toNat % hmapPresetSize, c)

/-- `__oa_get_location`; `none` is -1. -/
def oaGetLocation (fuel : Nat) (d : Driver) (key : List Wchar) :
    Option (Driver × Option Nat) := do
  let (hash, c) ← d.hashSlot fuel key
  let location ← d.map.locate hmapPresetSize key fuel hash
  some ({ d with world := { d.world with strHashC := c } }, location)

/-- `hmap_add`. -/
def hmapAdd (fuel : Nat) (d : Driver) (key : List Wchar) (ms : Addr) : Option Driver := do
  let (hash, c) ← d.hashSlot fuel key
  let i ← d.map.vacant hmapPresetSize fuel hash
  some { d with
    world := { d.world with strHashC := c }
    map := d.map.set i (some (some key, ms))
    size := d.size + 1 }

/-- `hmap_get`; `none` is a null pointer. -/
def hmapGet (fuel : Nat) (d : Driver) (key : List Wchar) : Option (Driver × Option Addr) := do
  let (d, location) ← d.oaGetLocation fuel key
  some (d, location.bind fun i => (d.map i).map Prod.snd)

/-- `hmap_remove`, with `module_struct_delete` for `del_fn`. -/
def hmapRemove (fuel : Nat) (d : Driver) (key : List Wchar) : Option (Driver × Bool) := do
  let (d, location) ← d.oaGetLocation fuel key
  match location with
  | none => some (d, false)
  | some i => do
      let (_, a) ← d.map i
      let ms ← d.modules a
      let w ← moduleStructDelete fuel d.world ms
      some ({ d.setModule a none with world := w, map := d.map.set i (some (none, a)) }, true)

end Driver

-- ============================================================================
-- FuseAddUserspaceIrp
-- ============================================================================

/-- `FuseAllocateModuleName`: the first component of a path. -/
def fuseAllocateModuleName (text : List Wchar) : List Wchar :=
  let name := if text.head? = some backslash then text.drop 1 else text
  name.takeWhile (· ≠ backslash)

/-- `FileName.Buffer + 1`: the name a handle mounts, and looks itself up by. -/
def mountName (text : List Wchar) : List Wchar := text.drop 1

/-- `FuseAddUserspaceIrp` for the packet `p`; `a` is the address the pool
    returns for its node.  (`FusePrePostIrp` and `IoMarkIrpPending`, which
    concern the packet only, are left out.) -/
def fuseAddUserspaceIrp (fuel : Nat) (d : Driver) (p : Pirp) (sp : IoStackLocation) (a : Addr) :
    Option (Driver × NtStatus) :=
  let fileName := d.world.files sp.fileObject
  if 0 < fileName.length then do
    let (d, found) ← d.hmapGet fuel (fuseAllocateModuleName fileName.text)
    match found with
    | none => some ({ d with world := d.world.complete p }, statusSuccess)
    | some addr => do
        let ms ← d.modules addr
        let (w, ms, _) ← fuseAddIrpToModuleList d.world ms p false a
        let (w, ms, _) ← fuseCheckForWork fuel w ms none
        some ({ d.setModule addr (some ms) with world := w }, statusPending)
  else some ({ d with world := d.world.complete p }, statusSuccess)

-- ============================================================================
-- FuseFsdFileSystemControl
-- ============================================================================

/-- `CTL_CODE`. -/
def ctlCode (deviceType function method access : Nat) : Nat :=
  deviceType * 2 ^ 16 + access * 2 ^ 14 + function * 2 ^ 2 + method

def irpFuseMount : Nat := ctlCode 9 3131 3 0

def irpFuseModuleResponse : Nat := ctlCode 9 3132 0 0

def irpFuseModuleRequest : Nat := ctlCode 9 3133 0 0

/-- `IRP_FUSE_MOUNT`; `a` is the address the pool returns for the
    `MODULE_STRUCT`. -/
def mountModule (fuel : Nat) (d : Driver) (p : Pirp) (sp : IoStackLocation) (a : Addr) :
    Option (Driver × NtStatus) :=
  let name := mountName (d.world.files sp.fileObject).text
  if d.modules a ≠ none then none
  else do
    let d ← (d.setModule a (some (ModuleStruct.zeroed name sp.fileObject))).hmapAdd fuel name a
    some ({ d with world := d.world.complete p }, statusSuccess)

/-- `IRP_FUSE_MODULE_REQUEST` on the module at `addr`. -/
def moduleRequest (fuel : Nat) (d : Driver) (p : Pirp) (addr : Addr) (ms : ModuleStruct)
    (a : Addr) : Option (Driver × NtStatus) := do
  let (w, ms, ok) ← fuseAddIrpToModuleList d.world ms p true a
  if ok then do
    let (w, ms, found) ← fuseCheckForWork fuel w ms (some p)
    some ({ d.setModule addr (some ms) with world := w },
      if found then statusSuccess else statusPending)
  else
    some ({ d.setModule addr (some ms) with world := w.complete p }, statusInvalidUserBuffer)

/-- `IRP_FUSE_MODULE_RESPONSE` on the module at `addr`. -/
def moduleResponse (fuel : Nat) (d : Driver) (p : Pirp) (addr : Addr) (ms : ModuleStruct) :
    Option (Driver × NtStatus) := do
  let (w, ms, status) ← fuseCopyResponse fuel d.world ms (d.world.irps p)
  some ({ d.setModule addr (some ms) with world := w.complete p }, status)

/-- `FuseFsdFileSystemControl` for the packet `p`; `a` is the address the pool
    returns if memory is allocated. -/
def fuseFsdFileSystemControl (fuel : Nat) (d : Driver) (p : Pirp) (sp : IoStackLocation)
    (a : Addr) : Option (Driver × NtStatus) :=
  let fileName := d.world.files sp.fileObject
  if fileName.length ≤ 1 then some (d, statusInvalidParameter)
  else if sp.fsControlCode = irpFuseMount then mountModule fuel d p sp a
  else if sp.fsControlCode = irpFuseModuleRequest ∨
      sp.fsControlCode = irpFuseModuleResponse then do
    let (d, found) ← d.hmapGet fuel (mountName fileName.text)
    match found with
    | none => some (d, statusInvalidParameter)
    | some addr => do
        let ms ← d.modules addr
        if ms.moduleFileObject = sp.fileObject then
          if sp.fsControlCode = irpFuseModuleRequest then moduleRequest fuel d p addr ms a
          else moduleResponse fuel d p addr ms
        else some ({ d with world := d.world.complete p }, statusInvalidParameter)
  else some ({ d with world := d.world.complete p }, statusInvalidParameter)

-- ============================================================================
-- FuseCheckUnmountModule
-- ============================================================================

/-- `FuseCheckUnmountModule`, for the file object `fop` that is closed. -/
def fuseCheckUnmountModule (fuel : Nat) (d : Driver) (fop : Pfile) : Option (Driver × Bool) :=
  let fileName := d.world.files fop
  if 0 < fileName.length then do
    let (d, found) ← d.hmapGet fuel (mountName fileName.text)
    match found with
    | none => some (d, false)
    | some addr => do
        let ms ← d.modules addr
        if ms.moduleFileObject = fop then do
          let (d, _) ← d.hmapRemove fuel (mountName fileName.text)
          some (d, true)
        else some (d, false)
  else some (d, false)

end FuseNt
