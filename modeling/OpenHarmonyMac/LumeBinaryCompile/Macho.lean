import OpenHarmonyMac.LumeBinaryCompile.StringTable

/-!
# Fat Mach-O objects

`WriteMacho` writes one object for two architectures. The outer header has its numbers in big-endian
order and counts from the start of the file; the two slices are little-endian and count from their
own start.

* `writeMacho` — the writer
* `parseFat` — a reader of fat files, which goes by the headers alone
* `writeMacho_faithful` — the reader finds what was to be written
-/

namespace LumeBinaryCompile

namespace Macho

open Infra

/-! ## Records -/

/-- `struct fat_header` -/
structure FatHeader where
  magic : BitVec 32
  nfatArch : BitVec 32

/-- `struct fat_arch` -/
structure FatArch where
  cputype : BitVec 32
  cpusubtype : BitVec 32
  offset : BitVec 32
  size : BitVec 32
  align : BitVec 32

/-- `struct mach_header_64` -/
structure MachHeader64 where
  magic : BitVec 32
  cputype : BitVec 32
  cpusubtype : BitVec 32
  filetype : BitVec 32
  ncmds : BitVec 32
  sizeofcmds : BitVec 32
  flags : BitVec 32
  reserved : BitVec 32

/-- `struct load_command`, with which all commands begin. -/
structure LoadCommand where
  cmd : BitVec 32
  cmdsize : BitVec 32

/-- `struct segment_command_64` behind its `load_command` -/
structure SegmentCommand64 where
  command : LoadCommand
  segname : { bs : Bytes // bs.length = 16 }
  vmaddr : BitVec 64
  vmsize : BitVec 64
  fileoff : BitVec 64
  filesize : BitVec 64
  maxprot : BitVec 32
  initprot : BitVec 32
  nsects : BitVec 32
  flags : BitVec 32

/-- `struct section_64` -/
structure Section64 where
  sectname : { bs : Bytes // bs.length = 16 }
  segname : { bs : Bytes // bs.length = 16 }
  addr : BitVec 64
  size : BitVec 64
  offset : BitVec 32
  align : BitVec 32
  reloff : BitVec 32
  nreloc : BitVec 32
  flags : BitVec 32
  reserved1 : BitVec 32
  reserved2 : BitVec 32
  reserved3 : BitVec 32

/-- `struct symtab_command` behind its `load_command` -/
structure SymtabCommand where
  command : LoadCommand
  symoff : BitVec 32
  nsyms : BitVec 32
  stroff : BitVec 32
  strsize : BitVec 32

/-- `struct nlist_64` -/
structure Nlist64 where
  nStrx : BitVec 32
  nType : BitVec 8
  nSect : BitVec 8
  nDesc : BitVec 16
  nValue : BitVec 64

def fatHeader : Codec FatHeader :=
  ((Codec.wordBE 4).pair (Codec.wordBE 4)).map
    (fun (magic, nfatArch) => { magic, nfatArch })
    (fun h => (h.magic, h.nfatArch))
    fun _ => rfl

def fatArch : Codec FatArch :=
  ((Codec.wordBE 4).pair ((Codec.wordBE 4).pair ((Codec.wordBE 4).pair ((Codec.wordBE 4).pair
    (Codec.wordBE 4))))).map
    (fun (cputype, cpusubtype, offset, size, align) =>
      { cputype, cpusubtype, offset, size, align })
    (fun a => (a.cputype, a.cpusubtype, a.offset, a.size, a.align))
    fun _ => rfl

def machHeader64 : Codec MachHeader64 :=
  ((Codec.word 4).pair ((Codec.word 4).pair ((Codec.word 4).pair ((Codec.word 4).pair
    ((Codec.word 4).pair ((Codec.word 4).pair ((Codec.word 4).pair (Codec.word 4)))))))).map
    (fun (magic, cputype, cpusubtype, filetype, ncmds, sizeofcmds, flags, reserved) =>
      { magic, cputype, cpusubtype, filetype, ncmds, sizeofcmds, flags, reserved })
    (fun h => (h.magic, h.cputype, h.cpusubtype, h.filetype, h.ncmds, h.sizeofcmds, h.flags,
      h.reserved))
    fun _ => rfl

def loadCommand : Codec LoadCommand :=
  ((Codec.word 4).pair (Codec.word 4)).map
    (fun (cmd, cmdsize) => { cmd, cmdsize })
    (fun l => (l.cmd, l.cmdsize))
    fun _ => rfl

def segmentCommand64 : Codec SegmentCommand64 :=
  (loadCommand.pair ((Codec.raw 16).pair ((Codec.word 8).pair ((Codec.word 8).pair
    ((Codec.word 8).pair ((Codec.word 8).pair ((Codec.word 4).pair ((Codec.word 4).pair
      ((Codec.word 4).pair (Codec.word 4)))))))))).map
    (fun (command, segname, vmaddr, vmsize, fileoff, filesize, maxprot, initprot, nsects,
        flags) =>
      { command, segname, vmaddr, vmsize, fileoff, filesize, maxprot, initprot, nsects, flags })
    (fun s => (s.command, s.segname, s.vmaddr, s.vmsize, s.fileoff, s.filesize, s.maxprot,
      s.initprot, s.nsects, s.flags))
    fun _ => rfl

def section64 : Codec Section64 :=
  ((Codec.raw 16).pair ((Codec.raw 16).pair ((Codec.word 8).pair ((Codec.word 8).pair
    ((Codec.word 4).pair ((Codec.word 4).pair ((Codec.word 4).pair ((Codec.word 4).pair
      ((Codec.word 4).pair ((Codec.word 4).pair ((Codec.word 4).pair (Codec.word 4)))))))))))).map
    (fun (sectname, segname, addr, size, offset, align, reloff, nreloc, flags, reserved1,
        reserved2, reserved3) =>
      { sectname, segname, addr, size, offset, align, reloff, nreloc, flags, reserved1, reserved2,
        reserved3 })
    (fun s => (s.sectname, s.segname, s.addr, s.size, s.offset, s.align, s.reloff, s.nreloc,
      s.flags, s.reserved1, s.reserved2, s.reserved3))
    fun _ => rfl

def symtabCommand : Codec SymtabCommand :=
  (loadCommand.pair ((Codec.word 4).pair ((Codec.word 4).pair ((Codec.word 4).pair
    (Codec.word 4))))).map
    (fun (command, symoff, nsyms, stroff, strsize) => { command, symoff, nsyms, stroff, strsize })
    (fun s => (s.command, s.symoff, s.nsyms, s.stroff, s.strsize))
    fun _ => rfl

def nlist64 : Codec Nlist64 :=
  ((Codec.word 4).pair ((Codec.word 1).pair ((Codec.word 1).pair ((Codec.word 2).pair
    (Codec.word 8))))).map
    (fun (nStrx, nType, nSect, nDesc, nValue) => { nStrx, nType, nSect, nDesc, nValue })
    (fun n => (n.nStrx, n.nType, n.nSect, n.nDesc, n.nValue))
    fun _ => rfl

/-! ## The writer -/

/-- `CPU_TYPE_X86_64` with `CPU_SUBTYPE_X86_64_ALL`, and `CPU_TYPE_ARM64` with
`CPU_SUBTYPE_ARM64_ALL` -/
inductive Arch
  | x64
  | arm64
  deriving DecidableEq

def Arch.cputype : Arch → BitVec 32
  | .x64 => 0x01000007
  | .arm64 => 0x0100000c

def Arch.cpusubtype : Arch → BitVec 32
  | .x64 => 3
  | .arm64 => 0

/-- `(n + 7) & ~7` -/
def align8 (n : Nat) : Nat := (n + 7) / 8 * 8

/-- `"_"` in front of a name. -/
def underscored (name : Text) : Text :=
  Text.append ⟨[95], List.not_mem_cons_of_ne_of_not_mem (by decide) List.not_mem_nil⟩ name

/-- The commands with the header of the slice: the offset of the section. -/
def sectionOffset : Nat :=
  machHeader64.size + segmentCommand64.size + section64.size + symtabCommand.size

/-- `symtab.symoff`, which is aligned behind the section. -/
def symoff (sizeOfSection : Nat) : Nat := align8 (sectionOffset + sizeOfSection)

/-- `symtab.stroff` -/
def stroff (sizeOfSection : Nat) : Nat := symoff sizeOfSection + 2 * nlist64.size

/-- `string_size`, with the filler byte and the two NULs. -/
def stringSize (dataName sizeName : Text) : Nat :=
  (underscored dataName).bytes.length + (underscored sizeName).bytes.length + 3

/-- What `fpos` has come to at the end of a slice. -/
def sliceSize (dataName sizeName : Text) (sizeOfSection : Nat) : Nat :=
  stroff sizeOfSection + stringSize dataName sizeName

/-- `x64_header` and `arm64_header`, with `MH_MAGIC_64` and `MH_OBJECT`. -/
def machHeader (arch : Arch) : MachHeader64 where
  magic := 0xfeedfacf
  cputype := arch.cputype
  cpusubtype := arch.cpusubtype
  filetype := 1
  ncmds := 2
  sizeofcmds :=
    BitVec.ofNat 32 (segmentCommand64.size + section64.size + symtabCommand.size)
  flags := 0
  reserved := 0

/-- `data_seg`, an `LC_SEGMENT_64` without a name, with `VM_PROT_READ` and `SG_NORELOC`. -/
def dataSeg (sizeOfSection : Nat) : SegmentCommand64 where
  command := ⟨0x19, BitVec.ofNat 32 (segmentCommand64.size + section64.size)⟩
  segname := ⟨List.replicate 16 0, rfl⟩
  vmaddr := 0
  vmsize := BitVec.ofNat 64 (align8 sizeOfSection)
  fileoff := (BitVec.ofNat 32 sectionOffset).setWidth 64
  filesize := BitVec.ofNat 64 sizeOfSection
  maxprot := 1
  initprot := 1
  nsects := 1
  flags := 4

/-- `data_sect`, the section `"__const"` of `"__DATA"`. -/
def dataSect (sizeOfSection : Nat) : Section64 where
  sectname := ⟨[95, 95, 99, 111, 110, 115, 116] ++ List.replicate 9 0, rfl⟩
  segname := ⟨[95, 95, 68, 65, 84, 65] ++ List.replicate 10 0, rfl⟩
  addr := 0
  size := BitVec.ofNat 64 sizeOfSection
  offset := BitVec.ofNat 32 sectionOffset
  align := 3
  reloff := 0
  nreloc := 0
  flags := 0
  reserved1 := 0
  reserved2 := 0
  reserved3 := 0

/-- `symtab`, an `LC_SYMTAB`. -/
def symtab (dataName sizeName : Text) (sizeOfSection : Nat) : SymtabCommand where
  command := ⟨2, BitVec.ofNat 32 symtabCommand.size⟩
  symoff := BitVec.ofNat 32 (symoff sizeOfSection)
  nsyms := 2
  stroff := BitVec.ofNat 32 (stroff sizeOfSection)
  strsize := BitVec.ofNat 32 (stringSize dataName sizeName)

/-- A symbol of the section with `N_EXT | N_SECT` and `REFERENCE_FLAG_DEFINED`. -/
def sym (strx value : Nat) : Nlist64 where
  nStrx := BitVec.ofNat 32 strx
  nType := 0x01 ||| 0x0e
  nSect := 1
  nDesc := 2
  nValue := BitVec.ofNat 64 value

/-- `syms` -/
def syms (sizeName : Text) : List Nlist64 :=
  [sym 1 0, sym ((underscored sizeName).bytes.length + 2) 8]

/-- The filler byte and the two names. -/
def strings (dataName sizeName : Text) : Bytes :=
  [0] ++ ((underscored sizeName).bytes ++ [0] ++ ((underscored dataName).bytes ++ [0]))

/-- What is written for an architecture. -/
def machSlice (dataName sizeName : Text) (input : InputData) (arch : Arch) : Bytes :=
  let sizeOfSection := input.sizeOfData + 8
  let fpos := sectionOffset + sizeOfSection
  machHeader64.encode (machHeader arch) ++ (segmentCommand64.encode (dataSeg sizeOfSection) ++
    (section64.encode (dataSect sizeOfSection) ++
      (symtabCommand.encode (symtab dataName sizeName sizeOfSection) ++
        (input.bytes.take sizeOfSection ++ (List.replicate (align8 fpos - fpos) 0 ++
          (nlist64.encodeAll (syms sizeName) ++ strings dataName sizeName))))))

/-- `fathdr`. `FAT_CIGAM` in a little-endian memory is the magic number in big-endian order. -/
def fathdr : FatHeader := ⟨0xcafebabe, 2⟩

/-- The offset of the first slice. -/
def firstOffset : Nat := fatHeader.size + 2 * fatArch.size

/-- An entry of `archs`, with an alignment of 2^3. -/
def fatEntry (arch : Arch) (offset size : Nat) : FatArch where
  cputype := arch.cputype
  cpusubtype := arch.cpusubtype
  offset := BitVec.ofNat 32 offset
  size := BitVec.ofNat 32 size
  align := 3

/-- `archs` -/
def archs (fpos : Nat) : List FatArch :=
  [fatEntry .x64 firstOffset fpos, fatEntry .arm64 (align8 fpos + firstOffset) fpos]

/-- `WriteMacho` -/
def writeMacho (dataName sizeName : Text) (input : InputData) : Bytes :=
  let fpos := sliceSize dataName sizeName (input.sizeOfData + 8)
  fatHeader.encode fathdr ++ (fatArch.encodeAll (archs fpos) ++
    (machSlice dataName sizeName input .x64 ++ (List.replicate (align8 fpos - fpos) 0 ++
      machSlice dataName sizeName input .arm64)))

/-! ## A reader -/

/-- A load command with what belongs to it. -/
inductive Command
  | segment (command : SegmentCommand64) (sections : List Section64)
  | symtab (command : SymtabCommand)
  | other (cmd : BitVec 32)

/-- The sections of a segment. -/
def Command.sections : Command → List Section64
  | .segment _ sections => sections
  | _ => []

/-- The symbol table. -/
def Command.symtab? : Command → Option SymtabCommand
  | .symtab command => some command
  | _ => none

/-- The extents in the slice that a command tells. -/
def Command.extents : Command → List (Nat × Nat)
  | .segment command sections =>
    (command.fileoff.toNat, command.filesize.toNat) ::
      sections.map fun s => (s.offset.toNat, s.size.toNat)
  | .symtab command =>
    [(command.symoff.toNat, nlist64.size * command.nsyms.toNat),
      (command.stroff.toNat, command.strsize.toNat)]
  | .other _ => []

/-- The command at an offset, by its number. -/
def readCommand (bs : Bytes) (off : Nat) (cmd : BitVec 32) : Option Command :=
  if cmd = 0x19 then do
    let command ← segmentCommand64.read bs off
    let sections ← section64.readAll bs (off + segmentCommand64.size) command.nsects.toNat
    some (.segment command sections)
  else if cmd = 2 then do
    let command ← symtabCommand.read bs off
    some (.symtab command)
  else some (.other cmd)

/-- The commands one behind the other, each as long as it says. -/
def readCommands (bs : Bytes) : Nat → Nat → Option (List Command)
  | _, 0 => some []
  | off, n + 1 => do
    let head ← loadCommand.read bs off
    let command ← readCommand bs off head.cmd
    let commands ← readCommands bs (off + head.cmdsize.toNat) n
    some (command :: commands)

/-- A section with its bytes. -/
structure MachSection where
  header : Section64
  bytes : Bytes

/-- A symbol with its name. -/
structure MachSymbol where
  name : Bytes
  entry : Nlist64

/-- What the commands of a slice lead to. -/
structure MachObject where
  cputype : BitVec 32
  sections : List MachSection
  symbols : List MachSymbol
  extents : List (Nat × Nat)

def loadSection (bs : Bytes) (header : Section64) : Option MachSection :=
  (slice bs header.offset.toNat header.size.toNat).map (MachSection.mk header)

def loadSymbol (strings : Bytes) (entry : Nlist64) : Option MachSymbol :=
  (cStringAt strings entry.nStrx.toNat).map fun name => ⟨name, entry⟩

/-- What the commands lead to. The extents include the commands themselves. -/
def loadObject (bs : Bytes) (head : MachHeader64) (commands : List Command) :
    Option MachObject := do
  let sections ← (commands.flatMap Command.sections).mapM (loadSection bs)
  let symtab ← commands.findSome? Command.symtab?
  let entries ← nlist64.readAll bs symtab.symoff.toNat symtab.nsyms.toNat
  let strings ← slice bs symtab.stroff.toNat symtab.strsize.toNat
  let symbols ← entries.mapM (loadSymbol strings)
  some
    { cputype := head.cputype
      sections
      symbols
      extents := (machHeader64.size, head.sizeofcmds.toNat) ::
        commands.flatMap Command.extents }

/-- Reads a slice. -/
def parseMach (bs : Bytes) : Option MachObject := do
  let head ← machHeader64.read bs 0
  if head.magic = 0xfeedfacf then
    let commands ← readCommands bs machHeader64.size head.ncmds.toNat
    loadObject bs head commands
  else none

/-- A slice of a fat file. -/
structure FatSlice where
  arch : FatArch
  bytes : Bytes
  obj : MachObject

def loadSlice (file : Bytes) (arch : FatArch) : Option FatSlice := do
  let bytes ← slice file arch.offset.toNat arch.size.toNat
  let obj ← parseMach bytes
  some ⟨arch, bytes, obj⟩

/-- Reads a fat file. -/
def parseFat (file : Bytes) : Option (List FatSlice) := do
  let head ← fatHeader.read file 0
  if head.magic = 0xcafebabe then
    let archs ← fatArch.readAll file fatHeader.size head.nfatArch.toNat
    archs.mapM (loadSlice file)
  else none

/-! ## What the reader finds -/

/-- A slice has one section with the data, the two symbols with their whole names, and nothing that
its headers tell of is outside of it. -/
structure FaithfulSlice (dataName sizeName : Text) (input : InputData) (arch : Arch)
    (s : FatSlice) : Prop where
  cputype : s.obj.cputype = arch.cputype ∧ s.arch.cputype = arch.cputype
  oneSection : ∃ sect, s.obj.sections = [sect] ∧ sect.bytes = input.bytes ∧
    sect.header.addr.toNat = 0
  symbols : s.obj.symbols.map (fun s => (s.name, s.entry.nSect.toNat, s.entry.nValue.toNat)) =
    [((underscored sizeName).bytes, 1, 0), ((underscored dataName).bytes, 1, 8)]
  inside : ∀ p ∈ s.obj.extents, p.1 + p.2 ≤ s.bytes.length
  aligned : 2 ^ s.arch.align.toNat ∣ s.arch.offset.toNat

/-- Both slices are as they should be, and apart from each other and from the headers in front of
them. -/
structure Faithful (dataName sizeName : Text) (input : InputData) (file : Bytes)
    (slices : List FatSlice) : Prop where
  perArch : List.Forall₂ (FaithfulSlice dataName sizeName input) [.x64, .arm64] slices
  inside : ∀ s ∈ slices, At file s.arch.offset.toNat s.bytes ∧ s.bytes.length = s.arch.size.toNat
  apart : ((0, firstOffset) :: slices.map fun s =>
    (s.arch.offset.toNat, s.arch.size.toNat)).Pairwise Apart

/-! ## Sizes -/

theorem dvd_align8 (n : Nat) : 8 ∣ align8 n := Nat.dvd_mul_left _ _

theorem le_align8 (n : Nat) : n ≤ align8 n := by
  unfold align8
  omega

theorem sectionOffset_eq : sectionOffset = 208 := rfl

theorem firstOffset_eq : firstOffset = 48 := rfl

theorem length_strings (dataName sizeName : Text) :
    (strings dataName sizeName).length = stringSize dataName sizeName := by
  simp only [strings, stringSize, List.length_append, List.length_singleton]
  omega

/-! ## Where the parts lie -/

section Places

variable {dataName sizeName : Text} {input : InputData} {arch : Arch} {bs file : Bytes} {n : Nat}

/-- The places of the parts of a slice. -/
structure SlicePlaces (dataName sizeName : Text) (input : InputData) (arch : Arch) (bs : Bytes) :
    Prop where
  head : At bs 0 (machHeader64.encode (machHeader arch))
  segment : At bs machHeader64.size (segmentCommand64.encode (dataSeg input.bytes.length))
  sections : At bs (machHeader64.size + segmentCommand64.size)
    (section64.encodeAll [dataSect input.bytes.length])
  symtab : At bs (machHeader64.size + (segmentCommand64.size + section64.size))
    (symtabCommand.encode (symtab dataName sizeName input.bytes.length))
  data : At bs sectionOffset input.bytes
  syms : At bs (symoff input.bytes.length) (nlist64.encodeAll (syms sizeName))
  strings : At bs (stroff input.bytes.length) (strings dataName sizeName)
  length_eq : bs.length = sliceSize dataName sizeName input.bytes.length

theorem machSlice_places (hbs : bs = machSlice dataName sizeName input arch) :
    SlicePlaces dataName sizeName input arch bs := by
  unfold machSlice at hbs
  dsimp only at hbs
  rw [← input.length_eq, List.take_length] at hbs
  -- each part is in front of what is left of the slice
  have hhead := at_self bs
  nth_rewrite 2 [hbs] at hhead
  have hsegment := hhead.right
  rw [machHeader64.length_encode, Nat.zero_add] at hsegment
  have hsection := hsegment.right
  rw [segmentCommand64.length_encode] at hsection
  have hsymtab := hsection.right
  rw [section64.length_encode, Nat.add_assoc] at hsymtab
  have hdata := hsymtab.right
  rw [symtabCommand.length_encode, ← Nat.add_assoc machHeader64.size] at hdata
  change At bs sectionOffset _ at hdata
  have hsyms := hdata.right.right
  rw [List.length_replicate, Nat.add_sub_of_le (le_align8 _)] at hsyms
  change At bs (symoff input.bytes.length) _ at hsyms
  have hstrings := hsyms.right
  rw [Codec.length_encodeAll, Nat.mul_comm] at hstrings
  change At bs (stroff input.bytes.length) _ at hstrings
  exact
    { head := hhead.left
      segment := hsegment.left
      sections := by
        rw [Codec.encodeAll, List.flatMap_singleton]
        exact hsection.left
      symtab := hsymtab.left
      data := hdata.left
      syms := hsyms.left
      strings := hstrings
      length_eq := by
        have hle := le_align8 (sectionOffset + input.bytes.length)
        have hsyms : (Macho.syms sizeName).length = 2 := rfl
        rw [hbs]
        simp only [List.length_append, Codec.length_encode, Codec.length_encodeAll,
          List.length_replicate, length_strings, hsyms]
        unfold sliceSize stroff symoff
        unfold sectionOffset at hle ⊢
        omega }

/-- The places of the parts of the file. -/
structure FilePlaces (dataName sizeName : Text) (input : InputData) (file : Bytes) : Prop where
  head : At file 0 (fatHeader.encode fathdr)
  archs : At file fatHeader.size
    (fatArch.encodeAll (archs (sliceSize dataName sizeName input.bytes.length)))
  first : At file firstOffset (machSlice dataName sizeName input .x64)
  second : At file (align8 (sliceSize dataName sizeName input.bytes.length) + firstOffset)
    (machSlice dataName sizeName input .arm64)
  length_eq : file.length = align8 (sliceSize dataName sizeName input.bytes.length) + firstOffset +
    sliceSize dataName sizeName input.bytes.length

theorem length_machSlice : (machSlice dataName sizeName input arch).length =
    sliceSize dataName sizeName input.bytes.length := (machSlice_places rfl).length_eq

theorem writeMacho_places (hfile : file = writeMacho dataName sizeName input) :
    FilePlaces dataName sizeName input file := by
  unfold writeMacho at hfile
  dsimp only at hfile
  rw [← input.length_eq] at hfile
  have hhead := at_self file
  nth_rewrite 2 [hfile] at hhead
  have harchs := hhead.right
  rw [fatHeader.length_encode, Nat.zero_add] at harchs
  have hfirst := harchs.right
  rw [Codec.length_encodeAll, Nat.mul_comm] at hfirst
  change At file firstOffset _ at hfirst
  have hsecond := hfirst.right.right
  rw [length_machSlice, List.length_replicate, Nat.add_assoc firstOffset,
    Nat.add_sub_of_le (le_align8 _), Nat.add_comm firstOffset] at hsecond
  exact
    { head := hhead.left
      archs := harchs.left
      first := hfirst.left
      second := hsecond
      length_eq := by
        have hle := le_align8 (sliceSize dataName sizeName input.bytes.length)
        have harchs : (Macho.archs (sliceSize dataName sizeName input.bytes.length)).length = 2 :=
          rfl
        rw [hfile]
        simp only [List.length_append, Codec.length_encode, Codec.length_encodeAll,
          List.length_replicate, length_machSlice, harchs]
        unfold firstOffset
        omega }

end Places

/-! ## Reading a slice -/

section Reading

variable {dataName sizeName : Text} {input : InputData} {arch : Arch} {bs : Bytes} {off n : Nat}

/-- A command begins with its number and its size. -/
theorem read_segment_head {command : SegmentCommand64}
    (h : At bs off (segmentCommand64.encode command)) :
    loadCommand.read bs off = some command.command := by
  have hhead : ∃ rest, segmentCommand64.encode command =
      loadCommand.encode command.command ++ rest := ⟨_, rfl⟩
  obtain ⟨rest, hrest⟩ := hhead
  rw [hrest] at h
  exact h.left.read

theorem read_symtab_head {command : SymtabCommand}
    (h : At bs off (symtabCommand.encode command)) :
    loadCommand.read bs off = some command.command := by
  have hhead : ∃ rest, symtabCommand.encode command =
      loadCommand.encode command.command ++ rest := ⟨_, rfl⟩
  obtain ⟨rest, hrest⟩ := hhead
  rw [hrest] at h
  exact h.left.read

theorem readCommand_segment {command : SegmentCommand64} {sections : List Section64}
    (h : At bs off (segmentCommand64.encode command))
    (hsections : At bs (off + segmentCommand64.size) (section64.encodeAll sections))
    (hcmd : command.command.cmd = 0x19) (hnsects : command.nsects.toNat = sections.length) :
    readCommand bs off command.command.cmd = some (.segment command sections) := by
  unfold readCommand
  rw [if_pos hcmd, h.read]
  simp only [hnsects, hsections.readAll, Option.bind_eq_bind, Option.bind_some]

theorem readCommand_symtab {command : SymtabCommand}
    (h : At bs off (symtabCommand.encode command)) (hcmd : command.command.cmd = 2) :
    readCommand bs off command.command.cmd = some (.symtab command) := by
  unfold readCommand
  rw [hcmd, if_neg (by decide), if_pos rfl, h.read]
  rfl

/-- The commands of a slice, each as it was written. -/
theorem readCommands_eq (h : SlicePlaces dataName sizeName input arch bs) :
    readCommands bs machHeader64.size 2 =
      some [.segment (dataSeg input.bytes.length) [dataSect input.bytes.length],
        .symtab (symtab dataName sizeName input.bytes.length)] := by
  have hcmdsize : (dataSeg input.bytes.length).command.cmdsize.toNat =
      segmentCommand64.size + section64.size := rfl
  simp only [readCommands, read_segment_head h.segment,
    readCommand_segment h.segment h.sections rfl rfl, hcmdsize, read_symtab_head h.symtab,
    readCommand_symtab h.symtab rfl, Option.bind_eq_bind, Option.bind_some]

/-- The names of the symbols in the string table. -/
theorem loadSymbols_eq (dataName sizeName : Text) (h : stringSize dataName sizeName < 2 ^ 32) :
    (syms sizeName).mapM (loadSymbol (strings dataName sizeName)) =
      some [⟨(underscored sizeName).bytes, sym 1 0⟩, ⟨(underscored dataName).bytes,
        sym ((underscored sizeName).bytes.length + 2) 8⟩] := by
  have hfirst : At (strings dataName sizeName) 1 ((underscored sizeName).bytes ++ [0]) :=
    (at_right [0] _).left
  have hsecond : At (strings dataName sizeName) ((underscored sizeName).bytes.length + 2)
      ((underscored dataName).bytes ++ [0]) := by
    have hat := (at_right [0] ((underscored sizeName).bytes ++ [0] ++
      ((underscored dataName).bytes ++ [0]))).right
    rw [List.length_append, List.length_singleton, Nat.add_comm 1, Nat.add_assoc] at hat
    exact hat
  have hstrx : (sym ((underscored sizeName).bytes.length + 2) 8).nStrx.toNat =
      (underscored sizeName).bytes.length + 2 := by
    refine toNat_ofNat_of_lt ?_
    unfold stringSize at h
    omega
  have hsizeName : loadSymbol (strings dataName sizeName) (sym 1 0) =
      some ⟨(underscored sizeName).bytes, sym 1 0⟩ := by
    have hname : cStringAt (strings dataName sizeName) (sym 1 0).nStrx.toNat =
        some (underscored sizeName).bytes := hfirst.cStringAt (underscored sizeName).noNul
    rw [loadSymbol, hname]
    rfl
  have hdataName : loadSymbol (strings dataName sizeName)
      (sym ((underscored sizeName).bytes.length + 2) 8) =
        some ⟨(underscored dataName).bytes, sym ((underscored sizeName).bytes.length + 2) 8⟩ := by
    rw [loadSymbol, hstrx, hsecond.cStringAt (underscored dataName).noNul]
    rfl
  simp only [syms, List.mapM_cons, List.mapM_nil, hsizeName, hdataName]
  rfl

/-- No field of the commands is truncated in a slice below 4 GiB. -/
theorem fields_of_small (h : sliceSize dataName sizeName input.bytes.length < 2 ^ 32) :
    (symtab dataName sizeName input.bytes.length).symoff.toNat = symoff input.bytes.length ∧
      (symtab dataName sizeName input.bytes.length).stroff.toNat = stroff input.bytes.length ∧
      (symtab dataName sizeName input.bytes.length).strsize.toNat =
        stringSize dataName sizeName ∧
      (dataSect input.bytes.length).size.toNat = input.bytes.length ∧
      (dataSeg input.bytes.length).filesize.toNat = input.bytes.length := by
  have hle := le_align8 (sectionOffset + input.bytes.length)
  have hsymoff : symoff input.bytes.length = align8 (sectionOffset + input.bytes.length) := rfl
  have hstroff : stroff input.bytes.length = symoff input.bytes.length + 32 := rfl
  have hsize : sliceSize dataName sizeName input.bytes.length =
      stroff input.bytes.length + stringSize dataName sizeName := rfl
  have hoffset := sectionOffset_eq
  exact ⟨toNat_ofNat_of_lt (by omega), toNat_ofNat_of_lt (by omega), toNat_ofNat_of_lt (by omega),
    toNat_ofNat_of_lt (by omega), toNat_ofNat_of_lt (by omega)⟩

/-- The object that the commands of a slice lead to. -/
theorem loadObject_slice (h : SlicePlaces dataName sizeName input arch bs)
    (hsmall : sliceSize dataName sizeName input.bytes.length < 2 ^ 32) :
    ∃ obj, loadObject bs (machHeader arch)
      [.segment (dataSeg input.bytes.length) [dataSect input.bytes.length],
        .symtab (symtab dataName sizeName input.bytes.length)] = some obj ∧
      obj.cputype = arch.cputype ∧
      obj.sections = [⟨dataSect input.bytes.length, input.bytes⟩] ∧
      obj.symbols = [⟨(underscored sizeName).bytes, sym 1 0⟩, ⟨(underscored dataName).bytes,
        sym ((underscored sizeName).bytes.length + 2) 8⟩] ∧
      obj.extents = [(machHeader64.size, (machHeader arch).sizeofcmds.toNat),
        (sectionOffset, input.bytes.length), (sectionOffset, input.bytes.length),
        (symoff input.bytes.length, nlist64.size * 2),
        (stroff input.bytes.length, stringSize dataName sizeName)] := by
  obtain ⟨hsymoffField, hstroffField, hstrsizeField, hsizeField, hfilesizeField⟩ :=
    fields_of_small hsmall
  have hsection : loadSection bs (dataSect input.bytes.length) =
      some ⟨dataSect input.bytes.length, input.bytes⟩ := by
    have hslice : slice bs (dataSect input.bytes.length).offset.toNat input.bytes.length =
        some input.bytes := h.data.slice
    rw [loadSection, hsizeField, hslice]
    rfl
  have hsections : [dataSect input.bytes.length].mapM (loadSection bs) =
      some [⟨dataSect input.bytes.length, input.bytes⟩] := by
    simp only [List.mapM_cons, List.mapM_nil, hsection]
    rfl
  have hentries : nlist64.readAll bs (symoff input.bytes.length)
      (symtab dataName sizeName input.bytes.length).nsyms.toNat = some (syms sizeName) :=
    h.syms.readAll
  have hstrings : slice bs (stroff input.bytes.length) (stringSize dataName sizeName) =
      some (strings dataName sizeName) := by
    rw [← length_strings]
    exact h.strings.slice
  have hshort : stringSize dataName sizeName < 2 ^ 32 :=
    Nat.lt_of_le_of_lt (Nat.le_add_left _ _) hsmall
  unfold loadObject
  simp only [List.flatMap_cons, List.flatMap_nil, Command.sections, List.append_nil,
    List.findSome?_cons, Command.symtab?, hsections, hsymoffField, hstroffField, hstrsizeField,
    hentries, hstrings, loadSymbols_eq dataName sizeName hshort, Option.bind_eq_bind,
    Option.bind_some]
  refine ⟨_, rfl, rfl, rfl, rfl, ?_⟩
  simp only [Command.extents, hsymoffField, hstroffField, hstrsizeField, hsizeField,
    hfilesizeField, List.map_cons, List.map_nil]
  rfl

/-- A slice below 4 GiB is read as it was written. -/
theorem parseMach_slice (h : SlicePlaces dataName sizeName input arch bs)
    (hsmall : sliceSize dataName sizeName input.bytes.length < 2 ^ 32) :
    ∃ obj, parseMach bs = some obj ∧ obj.cputype = arch.cputype ∧
      obj.sections = [⟨dataSect input.bytes.length, input.bytes⟩] ∧
      obj.symbols = [⟨(underscored sizeName).bytes, sym 1 0⟩, ⟨(underscored dataName).bytes,
        sym ((underscored sizeName).bytes.length + 2) 8⟩] ∧
      ∀ p ∈ obj.extents, p.1 + p.2 ≤ bs.length := by
  obtain ⟨obj, hobj, hcputype, hsections, hsyms, hextents⟩ := loadObject_slice h hsmall
  refine ⟨obj, ?_, hcputype, hsections, hsyms, ?_⟩
  · have hmagic : (machHeader arch).magic = 0xfeedfacf := rfl
    have hcommands : readCommands bs machHeader64.size (machHeader arch).ncmds.toNat = _ :=
      readCommands_eq h
    unfold parseMach
    simp only [h.head.read, if_pos hmagic, hcommands, hobj, Option.bind_eq_bind, Option.bind_some]
  · have hlength := h.length_eq
    have hle := le_align8 (sectionOffset + input.bytes.length)
    have hsymoff : symoff input.bytes.length = align8 (sectionOffset + input.bytes.length) := rfl
    have hstroff : stroff input.bytes.length = symoff input.bytes.length + 32 := rfl
    have hsize : sliceSize dataName sizeName input.bytes.length =
        stroff input.bytes.length + stringSize dataName sizeName := rfl
    have hoffset := sectionOffset_eq
    have hcmds : machHeader64.size + (machHeader arch).sizeofcmds.toNat = 208 := rfl
    have hnlist : nlist64.size = 16 := rfl
    -- the string table is the last part, and ends where the slice does
    rw [hextents]
    simp only [List.mem_cons, forall_eq_or_imp, List.not_mem_nil, false_imp_iff, implies_true,
      and_true]
    omega

/-- A slice is loaded by its entry in the outer header. -/
theorem exists_loadSlice {file : Bytes}
    (hat : At file off (machSlice dataName sizeName input arch)) (hoff : off < 2 ^ 32)
    (hsmall : sliceSize dataName sizeName input.bytes.length < 2 ^ 32) (haligned : 8 ∣ off) :
    ∃ s, loadSlice file (fatEntry arch off (sliceSize dataName sizeName input.bytes.length)) =
        some s ∧
      s.arch.offset.toNat = off ∧
      s.arch.size.toNat = sliceSize dataName sizeName input.bytes.length ∧
      s.bytes = machSlice dataName sizeName input arch ∧
      FaithfulSlice dataName sizeName input arch s := by
  have hplaces : SlicePlaces dataName sizeName input arch
      (machSlice dataName sizeName input arch) := machSlice_places rfl
  obtain ⟨obj, hobj, hcputype, hsections, hsymbols, hinside⟩ := parseMach_slice hplaces hsmall
  have hlength := hplaces.length_eq
  generalize machSlice dataName sizeName input arch = bs at *
  have hoffset : (BitVec.ofNat 32 off).toNat = off := toNat_ofNat_of_lt hoff
  have hsize : (BitVec.ofNat 32 (sliceSize dataName sizeName input.bytes.length)).toNat =
      sliceSize dataName sizeName input.bytes.length := toNat_ofNat_of_lt hsmall
  have hslice : slice file off (sliceSize dataName sizeName input.bytes.length) = some bs := by
    rw [← hlength]
    exact hat.slice
  refine ⟨⟨fatEntry arch off _, bs, obj⟩, ?_, hoffset, hsize, rfl, ?_⟩
  · unfold loadSlice
    simp only [fatEntry, hoffset, hsize, hslice, hobj, Option.bind_eq_bind, Option.bind_some]
  · exact
      { cputype := ⟨hcputype, rfl⟩
        oneSection := ⟨_, hsections, rfl, rfl⟩
        symbols := by
          rw [hsymbols]
          rfl
        inside := hinside
        aligned := by
          rw [fatEntry, hoffset]
          exact haligned }

end Reading

/-- **The object is what it should be**: for every data and all names, when the file is shorter
than 4 GiB, the reader finds in both slices one section with the data and the two symbols with their
names, at offsets that are aligned and apart from each other. -/
theorem writeMacho_faithful (dataName sizeName : Text) (input : InputData)
    (h : (writeMacho dataName sizeName input).length < 2 ^ 32) :
    ∃ slices, parseFat (writeMacho dataName sizeName input) = some slices ∧
      Faithful dataName sizeName input (writeMacho dataName sizeName input) slices := by
  have hplaces : FilePlaces dataName sizeName input (writeMacho dataName sizeName input) :=
    writeMacho_places rfl
  rw [hplaces.length_eq] at h
  generalize writeMacho dataName sizeName input = file at *
  have hfirst := firstOffset_eq
  have hle := le_align8 (sliceSize dataName sizeName input.bytes.length)
  have hdvd := dvd_align8 (sliceSize dataName sizeName input.bytes.length)
  -- the first slice is at 48, the second at a multiple of 8 behind it
  obtain ⟨s, hs, hoffset, hsize, hbytes, hslice⟩ :=
    exists_loadSlice hplaces.first (by omega) (by omega) (by decide)
  obtain ⟨s', hs', hoffset', hsize', hbytes', hslice'⟩ :=
    exists_loadSlice hplaces.second (by omega) (by omega) (by omega)
  have hslices : (archs (sliceSize dataName sizeName input.bytes.length)).mapM (loadSlice file) =
      some [s, s'] := by
    simp only [archs, List.mapM_cons, List.mapM_nil, hs, hs']
    rfl
  have harchs : fatArch.readAll file fatHeader.size fathdr.nfatArch.toNat =
      some (archs (sliceSize dataName sizeName input.bytes.length)) := hplaces.archs.readAll
  have hmagic : fathdr.magic = 0xcafebabe := rfl
  refine ⟨[s, s'], ?_, ?_⟩
  · unfold parseFat
    simp only [hplaces.head.read, if_pos hmagic, harchs, hslices, Option.bind_eq_bind,
      Option.bind_some]
  · exact
      { perArch := .cons hslice (.cons hslice' .nil)
        inside := by
          simp only [List.mem_cons, forall_eq_or_imp, List.not_mem_nil, false_imp_iff,
            implies_true, and_true]
          rw [hoffset, hoffset', hbytes, hbytes', hsize, hsize', length_machSlice,
            length_machSlice]
          exact ⟨⟨hplaces.first, rfl⟩, hplaces.second, rfl⟩
        apart := by
          simp only [List.map_cons, List.map_nil, hoffset, hoffset', hsize, hsize',
            List.pairwise_cons, List.mem_cons, forall_eq_or_imp, List.not_mem_nil, false_imp_iff,
            implies_true, and_true, List.Pairwise.nil, Apart]
          omega }

/-- A single byte under one-letter names. -/
theorem writeMacho_faithful_oneByte :
    ∃ slices, parseFat (writeMacho ⟨[100], by decide⟩ ⟨[115], by decide⟩
        ⟨[1, 0, 0, 0, 0, 0, 0, 0, 7], 1, rfl⟩) = some slices ∧
      Faithful ⟨[100], by decide⟩ ⟨[115], by decide⟩ ⟨[1, 0, 0, 0, 0, 0, 0, 0, 7], 1, rfl⟩
        (writeMacho ⟨[100], by decide⟩ ⟨[115], by decide⟩ ⟨[1, 0, 0, 0, 0, 0, 0, 0, 7], 1, rfl⟩)
        slices := by
  refine writeMacho_faithful _ _ _ ?_
  rw [(writeMacho_places rfl).length_eq]
  decide

end Macho

end LumeBinaryCompile
