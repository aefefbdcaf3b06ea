import Dumb.Lib.Binary

/-!
# The probe of ELF files

`_elf_header_layout`, `_elf_dynamic_info` and `_elf_dynamic_metadata` of `utils/mediastorm_installer.py`, on the contents of a
file, with the reads that they make.
-/

namespace Dumb.Mediastorm.Elf

open Py

inductive Raised where
  /-- `cannot fit 'int' into an offset-sized integer` -/
  | offset
  /-- `struct.error` -/
  | struct

/-- The contents of a file. Its offsets fit into `off_t`. -/
structure File where
  bytes : Octets
  fits : bytes.length < 2 ^ 63

abbrev Reads := List (Nat × Nat)

abbrev Probe := StateT Reads (Except Raised)

structure Layout where
  is64 : Bool
  endian : ByteOrder
  shoff : Nat
  shentsize : Nat
  shnum : Nat

structure Section where
  shType : Nat
  shOffset : Nat
  shSize : Nat
  shLink : Nat

abbrev Entry := Int × Nat

def maxElfSections : Nat := 4096
def maxElfSectionTableBytes : Nat := 2 ^ 20
def maxElfDynamicReadBytes : Nat := 2 ^ 20

def elfMagic : Octets := [0x7f, 0x45, 0x4c, 0x46]

def readAt (file : File) (offset size : Nat) : Probe Octets :=
  if offset < 2 ^ 63 then do
    modify (· ++ [(offset, size)])
    pure (slice file.bytes offset size)
  else throw .offset

def unpackFrom (order : ByteOrder) (width : Nat) (buffer : Octets) (offset : Nat) : Probe Nat :=
  if offset + width ≤ buffer.length then pure (order.unsigned (slice buffer offset width)) else throw .struct

def unpackLayout (is64 : Bool) (endian : ByteOrder) (header : Octets) : Probe Layout :=
  if is64 then do
    let shoff ← unpackFrom endian 8 header 40
    let shentsize ← unpackFrom endian 2 header 58
    let shnum ← unpackFrom endian 2 header 60
    return ⟨is64, endian, shoff, shentsize, shnum⟩
  else do
    let shoff ← unpackFrom endian 4 header 32
    let shentsize ← unpackFrom endian 2 header 46
    let shnum ← unpackFrom endian 2 header 48
    return ⟨is64, endian, shoff, shentsize, shnum⟩

def checkLayout (layout : Layout) : Option Layout :=
  if layout.shoff = 0 && layout.shnum = 0 then some layout
  else if layout.shnum = 0 || maxElfSections < layout.shnum || layout.shentsize < (if layout.is64 then 44 else 40) ||
      maxElfSectionTableBytes < layout.shentsize * layout.shnum then none
  else some layout

def elfHeaderLayout (file : File) : Probe (Option Layout) := do
  let header ← readAt file 0 64
  if header.length < 64 || header.take 4 ≠ elfMagic then return none
  if !([1, 2].contains (header.getD 4 0)) || !([1, 2].contains (header.getD 5 0)) then return none
  let layout ← unpackLayout (header.getD 4 0 = 2) (if header.getD 5 0 = 1 then .little else .big) header
  return checkLayout layout

def unpackSection (layout : Layout) (block : Octets) : Probe Section := do
  let shType ← unpackFrom layout.endian 4 block 4
  if layout.is64 then
    let shOffset ← unpackFrom layout.endian 8 block 24
    let shSize ← unpackFrom layout.endian 8 block 32
    let shLink ← unpackFrom layout.endian 4 block 40
    return ⟨shType, shOffset, shSize, shLink⟩
  else
    let shOffset ← unpackFrom layout.endian 4 block 16
    let shSize ← unpackFrom layout.endian 4 block 20
    let shLink ← unpackFrom layout.endian 4 block 24
    return ⟨shType, shOffset, shSize, shLink⟩

def unpackSections (layout : Layout) (table : Octets) : List Nat → Probe (Option (List Section))
  | [] => pure (some [])
  | index :: rest => do
    let block := slice table (index * layout.shentsize) layout.shentsize
    if block.length < layout.shentsize then return none
    let section_ ← unpackSection layout block
    let sections ← unpackSections layout table rest
    return sections.map (section_ :: ·)

def dynamicSection (sections : List Section) : Option Section :=
  sections.foldl (fun found s => if s.shType = 6 then some s else found) none

def entrySize (is64 : Bool) : Nat := if is64 then 16 else 8

/-- The loop over the dynamic entries, up to `DT_NULL`. -/
def unpackEntries (layout : Layout) (dynamicData : Octets) : List Nat → Probe (List Entry)
  | [] => pure []
  | index :: rest => do
    let half := entrySize layout.is64 / 2
    let offset := index * entrySize layout.is64
    if dynamicData.length < offset + 2 * half then throw .struct
    let dTag := layout.endian.signed (slice dynamicData offset half)
    let dVal := layout.endian.unsigned (slice dynamicData (offset + half) half)
    if dTag = 0 then return [(dTag, dVal)]
    let entries ← unpackEntries layout dynamicData rest
    return (dTag, dVal) :: entries

def readDynamic (file : File) (layout : Layout) (sections : List Section) : Probe (Option (Option (Octets × List Entry))) := do
  match dynamicSection sections with
  | none => return some none
  | some dynamic =>
    match sections[dynamic.shLink]? with
    | none => return none
    | some linked =>
      if linked.shOffset + linked.shSize ≤ file.bytes.length && linked.shSize ≤ maxElfDynamicReadBytes &&
          dynamic.shOffset + dynamic.shSize ≤ file.bytes.length && dynamic.shSize ≤ maxElfDynamicReadBytes then
        let strtab ← readAt file linked.shOffset linked.shSize
        let dynamicData ← readAt file dynamic.shOffset dynamic.shSize
        let entries ← unpackEntries layout dynamicData (List.range (dynamicData.length / entrySize layout.is64))
        return some (some (strtab, entries))
      else return none

def elfDynamicInfo (file : File) : Probe (Option (Option (Octets × List Entry))) := do
  match ← elfHeaderLayout file with
  | none => return none
  | some layout =>
    let table ← readAt file layout.shoff (layout.shentsize * layout.shnum)
    match ← unpackSections layout table (List.range layout.shnum) with
    | none => return none
    | some sections => readDynamic file layout sections

variable (decode : Octets → String)

def elfString (strtab : Octets) (tag : Int) : List Entry → List String
  | [] => []
  | (dTag, dVal) :: rest =>
    if dTag = tag then
      let name := (strtab.drop dVal).takeWhile (· ≠ 0)
      if dVal < strtab.length && name.length < (strtab.drop dVal).length then decode name :: elfString strtab tag rest
      else elfString strtab tag rest
    else if dTag = 0 then [] else elfString strtab tag rest

def elfDynamicMetadata (file : File) : Probe (Option (List String) × Option String) := do
  match ← elfDynamicInfo file with
  | none => return (none, none)
  | some none => return (some [], none)
  | some (some (strtab, entries)) =>
    let needed := elfString decode strtab 1 entries
    let sonames := elfString decode strtab 14 entries
    return (some needed, sonames.head?)

end Dumb.Mediastorm.Elf

/-! ## The format of ELF files

What a file says about its dynamic section. Every field is read where the format has it, and only inside of the file: the
result is `none` where something is malformed or out of bounds. Tables and sections over the sizes of the probe count as
malformed.
-/

namespace Dumb.Mediastorm.Elf

open Py

def number? (order : ByteOrder) (data : Octets) (offset width : Nat) : Option Nat :=
  (slice? data offset width).map order.unsigned

def headerSize (is64 : Bool) : Nat := if is64 then 64 else 52

def class? (b : UInt8) : Option Bool := if b = 1 then some false else if b = 2 then some true else none

def order? (b : UInt8) : Option ByteOrder := if b = 1 then some .little else if b = 2 then some .big else none

def header? (data : Octets) : Option Layout := do
  let magic ← slice? data 0 4
  let class_ ← slice? data 4 1
  let data_ ← slice? data 5 1
  let is64 ← if magic = elfMagic then class? (class_.getD 0 0) else none
  let endian ← order? (data_.getD 0 0)
  let _ ← slice? data 0 (headerSize is64)
  let shoff ← number? endian data (if is64 then 40 else 32) (if is64 then 8 else 4)
  let shentsize ← number? endian data (if is64 then 58 else 46) 2
  let shnum ← number? endian data (if is64 then 60 else 48) 2
  some ⟨is64, endian, shoff, shentsize, shnum⟩

def Layout.sectionless (h : Layout) : Bool := h.shoff = 0 && h.shnum = 0

def Layout.tabled (h : Layout) : Bool :=
  h.shnum ≠ 0 && h.shnum ≤ maxElfSections && (if h.is64 then 44 else 40) ≤ h.shentsize &&
    h.shentsize * h.shnum ≤ maxElfSectionTableBytes

def sectionAt? (data : Octets) (h : Layout) (index : Nat) : Option Section := do
  let start := h.shoff + index * h.shentsize
  let _ ← slice? data start h.shentsize
  let shType ← number? h.endian data (start + 4) 4
  let shOffset ← number? h.endian data (start + if h.is64 then 24 else 16) (if h.is64 then 8 else 4)
  let shSize ← number? h.endian data (start + if h.is64 then 32 else 20) (if h.is64 then 8 else 4)
  let shLink ← number? h.endian data (start + if h.is64 then 40 else 24) 4
  some ⟨shType, shOffset, shSize, shLink⟩

def sections? (data : Octets) (h : Layout) : Option (List Section) :=
  if h.sectionless then some []
  else if h.tabled then (List.range h.shnum).mapM (sectionAt? data h)
  else none

def contents? (data : Octets) (s : Section) : Option Octets :=
  if s.shSize ≤ maxElfDynamicReadBytes then slice? data s.shOffset s.shSize else none

def entryAt (h : Layout) (dynamicData : Octets) (index : Nat) : Entry :=
  let half := entrySize h.is64 / 2
  (h.endian.signed (slice dynamicData (index * entrySize h.is64) half),
    h.endian.unsigned (slice dynamicData (index * entrySize h.is64 + half) half))

def entries (h : Layout) (dynamicData : Octets) : List Entry :=
  ((List.range (dynamicData.length / entrySize h.is64)).map (entryAt h dynamicData)).takeWhile fun e => e.1 ≠ 0

def dynamicOf? (data : Octets) (h : Layout) (sections : List Section) : Option (Option (Octets × List Entry)) :=
  match dynamicSection sections with
  | none => some none
  | some dynamic => do
    let linked ← sections[dynamic.shLink]?
    let strtab ← contents? data linked
    let dynamicData ← contents? data dynamic
    some (some (strtab, entries h dynamicData))

def dynamic? (data : Octets) : Option (Option (Octets × List Entry)) := do
  let h ← header? data
  let sections ← sections? data h
  dynamicOf? data h sections

def string? (strtab : Octets) (offset : Nat) : Option Octets :=
  if 0 ∈ strtab.drop offset then some ((strtab.drop offset).takeWhile (· ≠ 0)) else none

variable (decode : Octets → String)

def strings? (strtab : Octets) (tag : Int) (entries : List Entry) : Option (List String) :=
  (entries.filter fun e => e.1 = tag).mapM fun e => (string? strtab e.2).map decode

def metadata? (data : Octets) : Option (List String × Option String) := do
  match ← dynamic? data with
  | none => some ([], none)
  | some (strtab, entries) =>
    let needed ← strings? decode strtab 1 entries
    let sonames ← strings? decode strtab 14 entries
    some (needed, sonames.head?)

/-! ## The probe -/

def Bounded : Reads → Prop
  | [] => False
  | header :: rest => header = (0, 64) ∧ rest.length ≤ 3 ∧ ∀ read ∈ rest, read.2 ≤ 2 ^ 20

def Exact (file : File) : Prop :=
  ∃ result reads, (elfDynamicMetadata decode file).run [] = .ok (result, reads) ∧ Bounded reads ∧
    result = match metadata? decode file.bytes with
      | none => (none, none)
      | some (needed, soname) => (some needed, soname)

/-- The offset of the section table can be passed to `seek`. -/
def SeekableTable (data : Octets) : Prop := ∀ h, header? data = some h → h.tabled = true → h.shoff < 2 ^ 63

def NamesInside (data : Octets) : Prop :=
  ∀ strtab es, dynamic? data = some (some (strtab, es)) → ∀ e ∈ es, e.1 = 1 ∨ e.1 = 14 → (string? strtab e.2).isSome

end Dumb.Mediastorm.Elf
