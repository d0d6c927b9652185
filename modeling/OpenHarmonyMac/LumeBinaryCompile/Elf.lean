import OpenHarmonyMac.LumeBinaryCompile.StringTable

/-!
# ELF objects

`WriteElf` writes a relocatable object of either class: the header, four section headers and three
symbols in one piece, then the data, then the string table. A reader goes by the fields of the
headers alone.

* `writeElf` — the writer, `none` where it writes outside of the string table
* `parseElf` — a reader of ELF objects
* `writeElf_faithful_iff` — when the reader finds what was to be written
-/

namespace LumeBinaryCompile

namespace Elf

open Infra

/-- `ELFCLASS32` and `ELFCLASS64` -/
inductive ElfClass
  | elf32
  | elf64
  deriving DecidableEq

/-- The bytes of an address or an offset. -/
def ElfClass.width : ElfClass → Nat
  | .elf32 => 4
  | .elf64 => 8

/-- `e_ident[EI_CLASS]` -/
def ElfClass.code : ElfClass → UInt8
  | .elf32 => 1
  | .elf64 => 2

/-- A number of the width of the class. -/
abbrev Word (c : ElfClass) := BitVec (8 * c.width)

/-- `Elf32_Ehdr` and `Elf64_Ehdr` -/
structure Ehdr (c : ElfClass) where
  eIdent : { bs : Bytes // bs.length = 16 }
  eType : BitVec 16
  eMachine : BitVec 16
  eVersion : BitVec 32
  eEntry : Word c
  ePhoff : Word c
  eShoff : Word c
  eFlags : BitVec 32
  eEhsize : BitVec 16
  ePhentsize : BitVec 16
  ePhnum : BitVec 16
  eShentsize : BitVec 16
  eShnum : BitVec 16
  eShstrndx : BitVec 16

/-- `Elf32_Shdr` and `Elf64_Shdr` -/
structure Shdr (c : ElfClass) where
  shName : BitVec 32
  shType : BitVec 32
  shFlags : Word c
  shAddr : Word c
  shOffset : Word c
  shSize : Word c
  shLink : BitVec 32
  shInfo : BitVec 32
  shAddralign : Word c
  shEntsize : Word c

/-- `Elf32_Sym` and `Elf64_Sym`, which have their fields in different orders. -/
structure Sym (c : ElfClass) where
  stName : BitVec 32
  stValue : Word c
  stSize : Word c
  stInfo : BitVec 8
  stOther : BitVec 8
  stShndx : BitVec 16

def ehdr (c : ElfClass) : Codec (Ehdr c) :=
  ((Codec.raw 16).pair ((Codec.word 2).pair ((Codec.word 2).pair ((Codec.word 4).pair
    ((Codec.word c.width).pair ((Codec.word c.width).pair ((Codec.word c.width).pair
      ((Codec.word 4).pair ((Codec.word 2).pair ((Codec.word 2).pair ((Codec.word 2).pair
        ((Codec.word 2).pair ((Codec.word 2).pair (Codec.word 2)))))))))))))).map
    (fun (eIdent, eType, eMachine, eVersion, eEntry, ePhoff, eShoff, eFlags, eEhsize, ePhentsize,
        ePhnum, eShentsize, eShnum, eShstrndx) =>
      { eIdent, eType, eMachine, eVersion, eEntry, ePhoff, eShoff, eFlags, eEhsize, ePhentsize,
        ePhnum, eShentsize, eShnum, eShstrndx })
    (fun h => (h.eIdent, h.eType, h.eMachine, h.eVersion, h.eEntry, h.ePhoff, h.eShoff, h.eFlags,
      h.eEhsize, h.ePhentsize, h.ePhnum, h.eShentsize, h.eShnum, h.eShstrndx))
    fun _ => rfl

def shdr (c : ElfClass) : Codec (Shdr c) :=
  ((Codec.word 4).pair ((Codec.word 4).pair ((Codec.word c.width).pair ((Codec.word c.width).pair
    ((Codec.word c.width).pair ((Codec.word c.width).pair ((Codec.word 4).pair ((Codec.word 4).pair
      ((Codec.word c.width).pair (Codec.word c.width)))))))))).map
    (fun (shName, shType, shFlags, shAddr, shOffset, shSize, shLink, shInfo, shAddralign,
        shEntsize) =>
      { shName, shType, shFlags, shAddr, shOffset, shSize, shLink, shInfo, shAddralign, shEntsize })
    (fun s => (s.shName, s.shType, s.shFlags, s.shAddr, s.shOffset, s.shSize, s.shLink, s.shInfo,
      s.shAddralign, s.shEntsize))
    fun _ => rfl

def sym : (c : ElfClass) → Codec (Sym c)
  | .elf32 =>
    ((Codec.word 4).pair ((Codec.word 4).pair ((Codec.word 4).pair ((Codec.word 1).pair
      ((Codec.word 1).pair (Codec.word 2)))))).map
      (fun (stName, stValue, stSize, stInfo, stOther, stShndx) =>
        { stName, stValue, stSize, stInfo, stOther, stShndx })
      (fun s => (s.stName, s.stValue, s.stSize, s.stInfo, s.stOther, s.stShndx))
      fun _ => rfl
  | .elf64 =>
    ((Codec.word 4).pair ((Codec.word 1).pair ((Codec.word 1).pair ((Codec.word 2).pair
      ((Codec.word 8).pair (Codec.word 8)))))).map
      (fun (stName, stInfo, stOther, stShndx, stValue, stSize) =>
        { stName, stValue, stSize, stInfo, stOther, stShndx })
      (fun s => (s.stName, s.stInfo, s.stOther, s.stShndx, s.stValue, s.stSize))
      fun _ => rfl

theorem ehdr_size (c : ElfClass) : (ehdr c).size = 40 + 3 * c.width := by
  cases c <;> rfl

theorem shdr_size (c : ElfClass) : (shdr c).size = 16 + 6 * c.width := by
  cases c <;> rfl

theorem sym_size (c : ElfClass) : (sym c).size = 8 + 2 * c.width := by
  cases c <;> rfl

/-- The section of index 0. -/
def Shdr.null (c : ElfClass) : Shdr c := ⟨0, 0, 0, 0, 0, 0, 0, 0, 0, 0⟩

/-- The symbol of index 0. -/
def Sym.null (c : ElfClass) : Sym c := ⟨0, 0, 0, 0, 0, 0⟩

/-- The magic number, the class, the byte order and the version. -/
def identOf (c : ElfClass) : Bytes := [0x7f, 69, 76, 70, c.code, 1, 1]

/-- The parameter `o` of the writer as `main` makes it. Its types have their initial values, which
are the identification of the class and null records at the indexes 0. -/
structure Template (c : ElfClass) where
  head : Ehdr c
  sections : Fin 4 → Shdr c
  symbs : Fin 3 → Sym c
  ident : head.eIdent.val.take 7 = identOf c
  nullSection : sections 0 = Shdr.null c
  nullSymbol : symbs 0 = Sym.null c

/-! ## The writer -/

/-- `".symtab"` -/
def symtabName : Text := ⟨[46, 115, 121, 109, 116, 97, 98], by decide⟩

/-- `".strtab"` -/
def strtabName : Text := ⟨[46, 115, 116, 114, 116, 97, 98], by decide⟩

/-- `".rodata."` with the name of the section. -/
def rodataName (secname : Text) : Text :=
  Text.append ⟨[46, 114, 111, 100, 97, 116, 97, 46], by decide⟩ secname

/-- What the calls of `addString` return. -/
structure NameOffsets where
  data : Nat
  size : Nat
  symtab : Nat
  rodata : Nat
  strtab : Nat

/-- The calls of `addString`, in their order, on a table that starts with a NUL. -/
def addNames (secname dataName sizeName : Text) : Option (NameOffsets × StringTable) := do
  let (data, table) ← addString ⟨[0], by decide⟩ dataName
  let (size, table) ← addString table sizeName
  let (symtab, table) ← addString table symtabName
  let (rodata, table) ← addString table (rodataName secname)
  let (strtab, table) ← addString table strtabName
  some (⟨data, size, symtab, rodata, strtab⟩, table)

variable {c : ElfClass}

/-- `offsetof(decltype(o), symbs)` -/
def offsetOfSymbs (c : ElfClass) : Nat := (ehdr c).size + 4 * (shdr c).size

/-- `sizeof(o)` -/
def sizeOfObj (c : ElfClass) : Nat := offsetOfSymbs c + 3 * (sym c).size

/-- A field of the class that gets a number. -/
def wordOf (c : ElfClass) (n : Nat) : Word c := BitVec.ofNat _ n

/-- A field of the class that gets a number through `static_cast<Elf32_Word>`. -/
def castOf (c : ElfClass) (n : Nat) : Word c := (BitVec.ofNat 32 n).setWidth _

/-- `o.head`, of the type `ET_REL`. -/
def headOf (o : Template c) (arch : BitVec 8) : Ehdr c :=
  { o.head with
    eType := 1
    eMachine := arch.setWidth 16
    eVersion := 1
    eEhsize := BitVec.ofNat 16 (ehdr c).size
    eShentsize := BitVec.ofNat 16 (shdr c).size
    eShnum := 4
    eShoff := wordOf c (ehdr c).size
    eShstrndx := 1 }

/-- `o.sections[1]`, of the type `SHT_STRTAB`. -/
def strtabHeader (o : Template c) (name sizeOfSection stringTableSize : Nat) : Shdr c :=
  { o.sections 1 with
    shName := BitVec.ofNat 32 name
    shType := 3
    shOffset := castOf c (sizeOfObj c + sizeOfSection)
    shAddralign := wordOf c 1
    shSize := castOf c stringTableSize }

/-- `o.sections[2]`, of the type `SHT_SYMTAB`. -/
def symtabHeader (o : Template c) (name : Nat) : Shdr c :=
  { o.sections 2 with
    shName := BitVec.ofNat 32 name
    shType := 2
    shOffset := wordOf c (offsetOfSymbs c)
    shAddralign := wordOf c 8
    shSize := wordOf c (3 * (sym c).size)
    shEntsize := wordOf c (sym c).size
    shLink := 1
    shInfo := 1 }

/-- `o.sections[3]`, of the type `SHT_PROGBITS` with `SHF_ALLOC | SHF_MERGE`. -/
def rodataHeader (o : Template c) (name sizeOfSection : Nat) : Shdr c :=
  { o.sections 3 with
    shName := BitVec.ofNat 32 name
    shType := 1
    shFlags := wordOf c (2 ||| 16)
    shOffset := wordOf c (sizeOfObj c)
    shAddralign := wordOf c 8
    shSize := castOf c sizeOfSection }

/-- `o.symbs[1]`, a hidden object with `STB_GLOBAL`. -/
def sizeSymbol (name : Nat) : Sym c where
  stName := BitVec.ofNat 32 name
  stValue := 0
  stSize := wordOf c 8
  stInfo := (1 <<< 4) ||| 1
  stOther := 2
  stShndx := 3

/-- `o.symbs[2]` -/
def dataSymbol (name sizeOfData : Nat) : Sym c where
  stName := BitVec.ofNat 32 name
  stValue := wordOf c 8
  stSize := castOf c sizeOfData
  stInfo := (1 <<< 4) ||| 1
  stOther := 2
  stShndx := 3

/-- The headers of the sections in the order of their indexes. -/
def sectionHeaders (o : Template c) (names : NameOffsets) (sizeOfSection stringTableSize : Nat) :
    List (Shdr c) :=
  [o.sections 0, strtabHeader o names.strtab sizeOfSection stringTableSize,
    symtabHeader o names.symtab, rodataHeader o names.rodata sizeOfSection]

/-- The symbols in the order of their indexes. -/
def symbolTable (o : Template c) (names : NameOffsets) (sizeOfData : Nat) : List (Sym c) :=
  [o.symbs 0, sizeSymbol names.size, dataSymbol names.data sizeOfData]

/-- What is written: the parts of `o`, the data and the string table. -/
def elfFile (head : Ehdr c) (headers : List (Shdr c)) (symbols : List (Sym c))
    (data strings : Bytes) : Bytes :=
  (ehdr c).encode head ++ ((shdr c).encodeAll headers ++ ((sym c).encodeAll symbols ++
    (data ++ strings)))

/-- `WriteElf` -/
def writeElf (o : Template c) (arch : BitVec 8) (secname dataName sizeName : Text)
    (input : InputData) : Option Bytes := do
  let sizeOfSection := input.sizeOfData + 8
  let (names, table) ← addNames secname dataName sizeName
  some (elfFile (headOf o arch) (sectionHeaders o names sizeOfSection table.bytes.length)
    (symbolTable o names input.sizeOfData) (input.bytes.take sizeOfSection) table.bytes)

/-! ## A reader -/

/-- A section with its name and its bytes. -/
structure ElfSection where
  name : Bytes
  type : Nat
  offset : Nat
  size : Nat
  link : Nat
  bytes : Bytes
  length_eq : bytes.length = size

/-- A symbol with its name. -/
structure ElfSymbol where
  name : Bytes
  value : Nat
  size : Nat
  info : Nat
  shndx : Nat
  deriving DecidableEq

/-- What the headers lead to. The extents are those of the header, of the section headers and of the
sections, as offsets with sizes. -/
structure ElfObject where
  sections : List ElfSection
  symbols : List ElfSymbol
  extents : List (Nat × Nat)

/-- A section, by the table of the names of sections. -/
def loadSection (file names : Bytes) (header : Shdr c) : Option ElfSection :=
  match h : slice file header.shOffset.toNat header.shSize.toNat with
  | none => none
  | some bytes =>
    (cStringAt names header.shName.toNat).map fun name =>
      { name
        type := header.shType.toNat
        offset := header.shOffset.toNat
        size := header.shSize.toNat
        link := header.shLink.toNat
        bytes
        length_eq := (slice_eq_some_iff.mp h).2 }

/-- A symbol, by the string table that its symbol table is linked to. -/
def loadSymbol (strings : Bytes) (s : Sym c) : Option ElfSymbol :=
  (cStringAt strings s.stName.toNat).map fun name =>
    { name
      value := s.stValue.toNat
      size := s.stSize.toNat
      info := s.stInfo.toNat
      shndx := s.stShndx.toNat }

/-- The symbols of a table. -/
def loadSymbols (c : ElfClass) (sections : List ElfSection) (symtab : ElfSection) :
    Option (List ElfSymbol) := do
  let strings ← sections[symtab.link]?
  let entries ← (sym c).readAll symtab.bytes 0 (symtab.size / (sym c).size)
  entries.mapM (loadSymbol strings.bytes)

/-- The sections that the headers tell of, and the symbols of the section with the type
`SHT_SYMTAB`. -/
def loadObject (file : Bytes) (head : Ehdr c) (headers : List (Shdr c)) : Option ElfObject := do
  let shstrtab ← headers[head.eShstrndx.toNat]?
  let names ← slice file shstrtab.shOffset.toNat shstrtab.shSize.toNat
  let sections ← headers.mapM (loadSection file names)
  let symtab ← sections.find? (·.type == 2)
  let symbols ← loadSymbols c sections symtab
  some
    { sections
      symbols
      extents := (0, head.eEhsize.toNat) ::
        (head.eShoff.toNat, head.eShentsize.toNat * head.eShnum.toNat) ::
          sections.map fun s => (s.offset, s.size) }

/-- Reads an object of a class. -/
def parseClass (c : ElfClass) (file : Bytes) : Option ElfObject := do
  let head ← (ehdr c).read file 0
  if head.eShentsize.toNat = (shdr c).size then
    let headers ← (shdr c).readAll file head.eShoff.toNat head.eShnum.toNat
    loadObject file head headers
  else none

/-- Reads an object of the class in its identification. -/
def parseElf (file : Bytes) : Option ElfObject :=
  if file.take 7 = identOf .elf32 then parseClass .elf32 file
  else if file.take 7 = identOf .elf64 then parseClass .elf64 file
  else none

/-! ## What the reader finds -/

/-- The object has the data in the section that both symbols are in, the symbols have their whole
names, and the extents lie in the file without common bytes. -/
structure Faithful (secname dataName sizeName : Text) (input : InputData) (file : Bytes)
    (obj : ElfObject) : Prop where
  dataSection : ∃ s, obj.sections[3]? = some s ∧ s.bytes = input.bytes ∧
    s.name = (rodataName secname).bytes
  sizeSymbol : obj.symbols[1]? = some ⟨sizeName.bytes, 0, 8, 17, 3⟩
  dataSymbol : obj.symbols[2]? = some ⟨dataName.bytes, 8, input.sizeOfData, 17, 3⟩
  inside : ∀ p ∈ obj.extents, p.1 + p.2 ≤ file.length
  apart : obj.extents.Pairwise Apart

/-! ## Sizes and fields -/

theorem sizeOfObj_eq (c : ElfClass) : sizeOfObj c = 128 + 33 * c.width := by
  rw [sizeOfObj, offsetOfSymbs, ehdr_size, shdr_size, sym_size]
  omega

theorem width_le (c : ElfClass) : c.width ≤ 8 := by
  cases c <;> decide

theorem pow_le_pow_width (c : ElfClass) : 2 ^ 32 ≤ 2 ^ (8 * c.width) := by
  cases c <;> decide

theorem wordOf_toNat {n : Nat} (h : n < 2 ^ 32) : (wordOf c n).toNat = n :=
  toNat_ofNat_of_lt (lt_of_lt_of_le h (pow_le_pow_width c))

theorem castOf_toNat (n : Nat) : (castOf c n).toNat = n % 2 ^ 32 := by
  rw [castOf, BitVec.toNat_setWidth, BitVec.toNat_ofNat]
  exact Nat.mod_eq_of_lt (lt_of_lt_of_le (Nat.mod_lt _ (by decide)) (pow_le_pow_width c))

/-! ## The string table -/

section Names

variable {secname dataName sizeName : Text} {names : NameOffsets} {table : StringTable}

/-- The names are in the table at their offsets. -/
structure NamesAt (secname dataName sizeName : Text) (names : NameOffsets) (table : Bytes) :
    Prop where
  empty : At table 0 ([] ++ [0])
  data : At table names.data (dataName.bytes ++ [0])
  size : At table names.size (sizeName.bytes ++ [0])
  symtab : At table names.symtab (symtabName.bytes ++ [0])
  rodata : At table names.rodata ((rodataName secname).bytes ++ [0])
  strtab : At table names.strtab (strtabName.bytes ++ [0])

theorem length_rodataName (secname : Text) :
    (rodataName secname).bytes.length = 8 + secname.bytes.length := by
  rw [rodataName, Text.append, List.length_append]
  rfl

theorem addNames_eq_some (h : addNames secname dataName sizeName = some (names, table)) :
    NamesAt secname dataName sizeName names table.bytes ∧ table.bytes.length =
      28 + dataName.bytes.length + sizeName.bytes.length + secname.bytes.length := by
  simp only [addNames, Option.bind_eq_bind, Option.bind_eq_some_iff, Prod.exists] at h
  obtain ⟨data, table₁, h₁, size, table₂, h₂, symtab, table₃, h₃, rodata, table₄, h₄, strtab,
    table₅, h₅, h⟩ := h
  obtain ⟨rfl, rfl⟩ := Prod.mk.inj (Option.some.inj h)
  refine ⟨?_, ?_⟩
  · -- a name stays where it is while others are added
    have hextends₄ := addString_extends h₅
    have hextends₃ := (addString_extends h₄).trans hextends₄
    have hextends₂ := (addString_extends h₃).trans hextends₃
    have hextends₁ := (addString_extends h₂).trans hextends₂
    exact
      { empty := (at_self [0]).mono ((addString_extends h₁).trans hextends₁)
        data := (addString_at h₁).mono hextends₁
        size := (addString_at h₂).mono hextends₂
        symtab := (addString_at h₃).mono hextends₃
        rodata := (addString_at h₄).mono hextends₄
        strtab := addString_at h₅ }
  · have hsymtab : symtabName.bytes.length = 7 := rfl
    have hstrtab : strtabName.bytes.length = 7 := rfl
    rw [length_of_addString h₅, length_of_addString h₄, length_of_addString h₃,
      length_of_addString h₂, length_of_addString h₁, hsymtab, hstrtab, length_rodataName,
      List.length_singleton]
    omega

/-- The names fit just in case they leave room for those of the sections. -/
theorem exists_addNames_iff : (∃ names table, addNames secname dataName sizeName =
    some (names, table)) ↔
      28 + dataName.bytes.length + sizeName.bytes.length + secname.bytes.length ≤ 256 := by
  constructor
  · rintro ⟨names, table, h⟩
    rw [← (addNames_eq_some h).2]
    exact table.fits
  · intro h
    have hsymtab : symtabName.bytes.length = 7 := rfl
    have hstrtab : strtabName.bytes.length = 7 := rfl
    have hrodata := length_rodataName secname
    -- each table is longer than the one before by a name with its end
    obtain ⟨table₁, h₁, -⟩ := @addString_of_fits ⟨[0], by decide⟩ dataName (by
      rw [List.length_singleton]
      omega)
    have hlength₁ := length_of_addString h₁
    rw [List.length_singleton] at hlength₁
    obtain ⟨table₂, h₂, -⟩ := @addString_of_fits table₁ sizeName (by omega)
    have hlength₂ := length_of_addString h₂
    obtain ⟨table₃, h₃, -⟩ := @addString_of_fits table₂ symtabName (by omega)
    have hlength₃ := length_of_addString h₃
    obtain ⟨table₄, h₄, -⟩ := @addString_of_fits table₃ (rodataName secname) (by omega)
    have hlength₄ := length_of_addString h₄
    obtain ⟨table₅, h₅, -⟩ := @addString_of_fits table₄ strtabName (by omega)
    refine ⟨⟨1, table₁.bytes.length, table₂.bytes.length, table₃.bytes.length,
      table₄.bytes.length⟩, table₅, ?_⟩
    simp only [addNames, h₁, h₂, h₃, h₄, h₅, Option.bind_eq_bind, Option.bind_some]
    rfl

end Names

/-! ## Where the parts lie -/

section Places

variable {head : Ehdr c} {headers : List (Shdr c)} {symbols : List (Sym c)}
  {data strings file : Bytes}

/-- The parts of a file lie one behind the other. -/
theorem elfFile_places (hfile : file = elfFile head headers symbols data strings)
    (hheaders : headers.length = 4) (hsymbols : symbols.length = 3) :
    At file 0 ((ehdr c).encode head) ∧
      At file (ehdr c).size ((shdr c).encodeAll headers) ∧
      At file (offsetOfSymbs c) ((sym c).encodeAll symbols) ∧
      At file (sizeOfObj c) data ∧
      At file (sizeOfObj c + data.length) strings ∧
      file.length = sizeOfObj c + data.length + strings.length := by
  have hhead : At file 0 (elfFile head headers symbols data strings) := hfile ▸ at_self file
  have hsections := hhead.right
  rw [(ehdr c).length_encode, Nat.zero_add] at hsections
  have hsymtab : At file (offsetOfSymbs c)
      ((sym c).encodeAll symbols ++ (data ++ strings)) := by
    have h := hsections.right
    rwa [Codec.length_encodeAll, hheaders, Nat.mul_comm] at h
  have hdata : At file (sizeOfObj c) (data ++ strings) := by
    have h := hsymtab.right
    rwa [Codec.length_encodeAll, hsymbols, Nat.mul_comm] at h
  refine ⟨hhead.left, hsections.left, hsymtab.left, hdata.left, hdata.right, ?_⟩
  rw [hfile]
  unfold elfFile
  simp only [List.length_append, (ehdr c).length_encode, Codec.length_encodeAll, hheaders,
    hsymbols, sizeOfObj, offsetOfSymbs]
  omega

/-- The identification is at the start of the header. -/
theorem take_ident (h : At file 0 ((ehdr c).encode head)) :
    file.take 7 = head.eIdent.val.take 7 := by
  have hident : ∃ rest, (ehdr c).encode head = head.eIdent.val ++ rest := ⟨_, rfl⟩
  obtain ⟨rest, hrest⟩ := hident
  rw [hrest] at h
  obtain ⟨pre, post, rfl, hpre⟩ := h.left
  obtain rfl := List.eq_nil_of_length_eq_zero hpre
  rw [List.nil_append]
  exact List.take_append_of_le_length (by
    rw [head.eIdent.property]
    decide)

/-- The reader gets to the headers as they were written. -/
theorem parseElf_elfFile {o : Template c} {arch : BitVec 8} (hheaders : headers.length = 4)
    (hsymbols : symbols.length = 3)
    (hfile : file = elfFile (headOf o arch) headers symbols data strings) :
    parseElf file = loadObject file (headOf o arch) headers := by
  obtain ⟨hhead, hsections, -⟩ := elfFile_places hfile hheaders hsymbols
  have hident : file.take 7 = identOf c := (take_ident hhead).trans o.ident
  have hparse : parseElf file = parseClass c file := by
    unfold parseElf
    rw [hident]
    cases c <;> rfl
  have hstart : (headOf o arch).eShoff.toNat = (ehdr c).size := by
    refine wordOf_toNat ?_
    rw [ehdr_size]
    have := width_le c
    omega
  have hsize : (headOf o arch).eShentsize.toNat = (shdr c).size := by
    cases c <;> rfl
  have hread : (shdr c).readAll file (headOf o arch).eShoff.toNat (headOf o arch).eShnum.toNat =
      some headers := by
    rw [hstart, ← hsections.readAll, hheaders]
    rfl
  rw [hparse]
  unfold parseClass
  simp only [hhead.read, hread, if_pos hsize, Option.bind_eq_bind, Option.bind_some]

end Places

/-! ## Loading -/

section Loading

variable {file names strings bs : Bytes} {header : Shdr c} {headers : List (Shdr c)} {s : ElfSection}
  {sections : List ElfSection} {name : Text}

/-- The extent that a header tells. -/
def Shdr.extent (header : Shdr c) : Nat × Nat := (header.shOffset.toNat, header.shSize.toNat)

theorem extent_of_loadSection (h : loadSection file names header = some s) :
    (s.offset, s.size) = header.extent := by
  unfold loadSection at h
  split at h
  case h_1 => cases h
  case h_2 bytes hslice =>
    obtain ⟨name, -, rfl⟩ := Option.map_eq_some_iff.mp h
    rfl

/-- The sections have the extents of their headers. -/
theorem extents_of_mapM (h : headers.mapM (loadSection file names) = some sections) :
    sections.map (fun s => (s.offset, s.size)) = headers.map Shdr.extent := by
  induction headers generalizing sections with
  | nil =>
    obtain rfl := Option.some.inj h
    rfl
  | cons header headers ih =>
    simp only [List.mapM_cons, Option.bind_eq_bind, Option.bind_eq_some_iff] at h
    obtain ⟨s, hs, rest, hrest, h⟩ := h
    obtain rfl := Option.some.inj h
    rw [List.map_cons, List.map_cons, extent_of_loadSection hs, ih hrest]

/-- A section is loaded when its bytes and its name are where the header says. -/
theorem exists_loadSection (hat : At file header.shOffset.toNat bs)
    (hlen : bs.length = header.shSize.toNat)
    (hname : At names header.shName.toNat (name.bytes ++ [0])) :
    ∃ s, loadSection file names header = some s ∧ s.name = name.bytes ∧
      s.type = header.shType.toNat ∧ s.link = header.shLink.toNat ∧ s.bytes = bs := by
  have hslice := hat.slice
  rw [hlen] at hslice
  unfold loadSection
  split
  case h_1 hnone => exact absurd (hslice.symm.trans hnone) (Option.some_ne_none _)
  case h_2 bytes hsome =>
    obtain rfl := Option.some.inj (hslice.symm.trans hsome)
    rw [hname.cStringAt name.noNul]
    exact ⟨_, rfl, rfl, rfl, rfl, rfl⟩

theorem loadSymbol_eq {s : Sym c} (hname : At strings s.stName.toNat (name.bytes ++ [0])) :
    loadSymbol strings s =
      some ⟨name.bytes, s.stValue.toNat, s.stSize.toNat, s.stInfo.toNat, s.stShndx.toNat⟩ := by
  unfold loadSymbol
  rw [hname.cStringAt name.noNul]
  rfl

theorem loadObject_eq_some {head : Ehdr c} {obj : ElfObject}
    (h : loadObject file head headers = some obj) :
    obj.sections.map (fun s => (s.offset, s.size)) = headers.map Shdr.extent ∧
      obj.extents = (0, head.eEhsize.toNat) ::
        (head.eShoff.toNat, head.eShentsize.toNat * head.eShnum.toNat) ::
          headers.map Shdr.extent := by
  simp only [loadObject, Option.bind_eq_bind, Option.bind_eq_some_iff] at h
  obtain ⟨shstrtab, -, names, -, sections, hsections, symtab, -, symbols, -, h⟩ := h
  obtain rfl := Option.some.inj h
  have hextents := extents_of_mapM hsections
  exact ⟨hextents, by rw [hextents]⟩

end Loading

/-! ## The extents of a written file -/

section Extents

variable {o : Template c} {names : NameOffsets} {sizeOfSection size : Nat}

theorem sectionHeaders_extents :
    (sectionHeaders o names sizeOfSection size).map Shdr.extent =
      [(0, 0), ((sizeOfObj c + sizeOfSection) % 2 ^ 32, size % 2 ^ 32),
        (offsetOfSymbs c, 3 * (sym c).size), (sizeOfObj c, sizeOfSection % 2 ^ 32)] := by
  have hwidth := width_le c
  have hobj := sizeOfObj_eq c
  have hsym : offsetOfSymbs c + 3 * (sym c).size = sizeOfObj c := rfl
  have hnull : (o.sections 0).extent = (0, 0) := by
    rw [o.nullSection]
    rfl
  have hsymtab : (wordOf c (offsetOfSymbs c)).toNat = offsetOfSymbs c := wordOf_toNat (by omega)
  have hsize : (wordOf c (3 * (sym c).size)).toNat = 3 * (sym c).size := wordOf_toNat (by omega)
  have hdata : (wordOf c (sizeOfObj c)).toNat = sizeOfObj c := wordOf_toNat (by omega)
  simp only [sectionHeaders, List.map_cons, List.map_nil, hnull]
  simp only [Shdr.extent, strtabHeader, symtabHeader, rodataHeader, castOf_toNat, hsymtab, hsize,
    hdata]

theorem headOf_extents (o : Template c) (arch : BitVec 8) :
    (headOf o arch).eEhsize.toNat = (ehdr c).size ∧ (headOf o arch).eShoff.toNat = (ehdr c).size ∧
      (headOf o arch).eShentsize.toNat * (headOf o arch).eShnum.toNat = 4 * (shdr c).size := by
  cases c <;> exact ⟨rfl, rfl, rfl⟩

end Extents

/-! ## The condition -/

section Condition

variable {o : Template c} {arch : BitVec 8} {secname dataName sizeName : Text} {input : InputData}
  {names : NameOffsets} {table file : Bytes} {obj : ElfObject}

/-- What is read of a written file has the extents that its headers tell. -/
theorem parseElf_extents (hfile : file = elfFile (headOf o arch)
      (sectionHeaders o names input.bytes.length table.length)
      (symbolTable o names input.sizeOfData) input.bytes table)
    (hparse : parseElf file = some obj) :
    obj.sections.map (fun s => (s.offset, s.size)) =
        [(0, 0), ((sizeOfObj c + input.bytes.length) % 2 ^ 32, table.length % 2 ^ 32),
          (offsetOfSymbs c, 3 * (sym c).size), (sizeOfObj c, input.bytes.length % 2 ^ 32)] ∧
      obj.extents = (0, (ehdr c).size) :: ((ehdr c).size, 4 * (shdr c).size) ::
        obj.sections.map (fun s => (s.offset, s.size)) := by
  rw [parseElf_elfFile rfl rfl hfile] at hparse
  obtain ⟨hsections, hextents⟩ := loadObject_eq_some hparse
  obtain ⟨hehsize, hshoff, hshsize⟩ := headOf_extents o arch
  rw [hehsize, hshoff, hshsize, ← hsections] at hextents
  rw [sectionHeaders_extents] at hsections
  exact ⟨hsections, hextents⟩

/-- A string table whose offset is truncated has bytes in common with the headers. -/
theorem sizes_of_faithful (hfile : file = elfFile (headOf o arch)
      (sectionHeaders o names input.bytes.length table.length)
      (symbolTable o names input.sizeOfData) input.bytes table)
    (htable : table.length ≤ 256) (hne : table ≠ []) (hparse : parseElf file = some obj)
    (hfaithful : Faithful secname dataName sizeName input file obj) :
    sizeOfObj c + input.bytes.length < 2 ^ 32 := by
  obtain ⟨hsections, hextents⟩ := parseElf_extents hfile hparse
  -- the section has the whole data only when its size fits the field
  obtain ⟨s, hs, hbytes, -⟩ := hfaithful.dataSection
  have hsize : s.size = input.bytes.length % 2 ^ 32 := by
    have hmap := congrArg (·[3]?) hsections
    rw [List.getElem?_map, hs] at hmap
    exact congrArg Prod.snd (Option.some.inj hmap)
  have hlength : input.bytes.length < 2 ^ 32 := by
    rw [← s.length_eq, hbytes] at hsize
    rw [hsize]
    exact Nat.mod_lt _ (by decide)
  by_contra hle
  have hpos : 0 < table.length := List.length_pos_iff.mpr hne
  have hobj := sizeOfObj_eq c
  have hwidth := width_le c
  have hwrap : (sizeOfObj c + input.bytes.length) % 2 ^ 32 =
      sizeOfObj c + input.bytes.length - 2 ^ 32 := by
    rw [Nat.mod_eq_sub_mod (by omega)]
    exact Nat.mod_eq_of_lt (by omega)
  have htableSize : table.length % 2 ^ 32 = table.length := Nat.mod_eq_of_lt (by omega)
  have hapart := hfaithful.apart
  rw [hextents, hsections, hwrap, htableSize] at hapart
  simp only [List.pairwise_cons, List.mem_cons, forall_eq_or_imp] at hapart
  obtain ⟨⟨-, -, hheader, -⟩, ⟨-, hheaders, -⟩, -, ⟨hsymtab, -⟩, -⟩ := hapart
  have hend : (ehdr c).size + 4 * (shdr c).size + 3 * (sym c).size = sizeOfObj c := rfl
  unfold Apart at hheader hheaders hsymtab
  unfold offsetOfSymbs at hsymtab
  omega

/-- The offset of a name is not truncated. -/
theorem nameField_of_at {off : Nat} {bs : Bytes} (hat : At table off (bs ++ [0]))
    (htable : table.length ≤ 256) : At table (BitVec.ofNat 32 off).toNat (bs ++ [0]) := by
  have hle := hat.end_le
  rw [List.length_append, List.length_singleton] at hle
  rwa [toNat_ofNat_of_lt (by omega)]

theorem castOf_of_lt {n : Nat} (h : n < 2 ^ 32) : (castOf c n).toNat = n := by
  rw [castOf_toNat]
  exact Nat.mod_eq_of_lt h

theorem loadSection_null (o : Template c) (file : Bytes)
    (hnames : NamesAt secname dataName sizeName names table) :
    ∃ s, loadSection file table (o.sections 0) = some s ∧ s.type = 0 := by
  have hat : At file (Shdr.null c).shOffset.toNat [] := ⟨[], file, rfl, rfl⟩
  have hempty : At table (Shdr.null c).shName.toNat ((⟨[], by decide⟩ : Text).bytes ++ [0]) :=
    hnames.empty
  rw [o.nullSection]
  obtain ⟨s, hs, -, htype, -⟩ := exists_loadSection hat rfl hempty
  exact ⟨s, hs, htype⟩

theorem loadSection_strtab (o : Template c) {n : Nat}
    (hat : At file (sizeOfObj c + n) table)
    (hnames : NamesAt secname dataName sizeName names table) (htable : table.length ≤ 256)
    (hsize : sizeOfObj c + n < 2 ^ 32) :
    ∃ s, loadSection file table (strtabHeader o names.strtab n table.length) = some s ∧
      s.type = 3 ∧ s.bytes = table := by
  have hoffset : At file (strtabHeader o names.strtab n table.length).shOffset.toNat table := by
    rw [strtabHeader, castOf_of_lt hsize]
    exact hat
  obtain ⟨s, hs, -, htype, -, hbytes⟩ := exists_loadSection hoffset
    (castOf_of_lt (by omega)).symm (nameField_of_at hnames.strtab htable)
  exact ⟨s, hs, htype, hbytes⟩

theorem loadSection_symtab (o : Template c) {bs : Bytes}
    (hat : At file (offsetOfSymbs c) bs) (hlen : bs.length = 3 * (sym c).size)
    (hnames : NamesAt secname dataName sizeName names table) (htable : table.length ≤ 256) :
    ∃ s, loadSection file table (symtabHeader o names.symtab) = some s ∧
      s.type = 2 ∧ s.link = 1 ∧ s.bytes = bs := by
  have hobj := sizeOfObj_eq c
  have hwidth := width_le c
  have hsym : offsetOfSymbs c + 3 * (sym c).size = sizeOfObj c := rfl
  have hoffset : At file (symtabHeader o names.symtab).shOffset.toNat bs := by
    rw [symtabHeader, wordOf_toNat (by omega)]
    exact hat
  have hfield : bs.length = (symtabHeader o names.symtab).shSize.toNat := by
    rw [symtabHeader, wordOf_toNat (by omega)]
    exact hlen
  obtain ⟨s, hs, -, htype, hlink, hbytes⟩ := exists_loadSection hoffset hfield
    (nameField_of_at hnames.symtab htable)
  exact ⟨s, hs, htype, hlink, hbytes⟩

theorem loadSection_rodata (o : Template c) {data : Bytes}
    (hat : At file (sizeOfObj c) data) (hnames : NamesAt secname dataName sizeName names table)
    (htable : table.length ≤ 256) (hsize : data.length < 2 ^ 32) :
    ∃ s, loadSection file table (rodataHeader o names.rodata data.length) = some s ∧
      s.name = (rodataName secname).bytes ∧ s.type = 1 ∧ s.bytes = data := by
  have hobj := sizeOfObj_eq c
  have hwidth := width_le c
  have hoffset : At file (rodataHeader o names.rodata data.length).shOffset.toNat data := by
    rw [rodataHeader, wordOf_toNat (by omega)]
    exact hat
  obtain ⟨s, hs, hname, htype, -, hbytes⟩ := exists_loadSection hoffset
    (castOf_of_lt hsize).symm (nameField_of_at hnames.rodata htable)
  exact ⟨s, hs, hname, htype, hbytes⟩

/-- The symbols of a table that has been written. -/
theorem loadSymbols_eq {sections : List ElfSection} {symtab strtab : ElfSection} {n : Nat}
    (hsymtab : symtab.bytes = (sym c).encodeAll (symbolTable o names n))
    (hlink : sections[symtab.link]? = some strtab) (hstrtab : strtab.bytes = table)
    (hnames : NamesAt secname dataName sizeName names table) (htable : table.length ≤ 256)
    (hsize : n < 2 ^ 32) :
    loadSymbols c sections symtab = some [⟨[], 0, 0, 0, 0⟩, ⟨sizeName.bytes, 0, 8, 17, 3⟩,
      ⟨dataName.bytes, 8, n, 17, 3⟩] := by
  have hpos : 0 < (sym c).size := by
    rw [sym_size]
    omega
  have hcount : symtab.size / (sym c).size = 3 := by
    rw [← symtab.length_eq, hsymtab, Codec.length_encodeAll, Nat.mul_comm]
    exact Nat.mul_div_cancel _ hpos
  have hentries : (sym c).readAll symtab.bytes 0 3 = some (symbolTable o names n) := by
    rw [hsymtab]
    exact (at_self _).readAll
  -- the three symbols one by one, the first of them under the empty name
  have hempty : At table 0 ((⟨[], by decide⟩ : Text).bytes ++ [0]) := hnames.empty
  have hnull : loadSymbol table (o.symbs 0) = some ⟨[], 0, 0, 0, 0⟩ := by
    rw [o.nullSymbol, loadSymbol_eq (s := Sym.null c) hempty]
    rfl
  have height : (wordOf c 8).toNat = 8 := wordOf_toNat (by decide)
  have hsizeSymbol : loadSymbol table (sizeSymbol names.size : Sym c) =
      some ⟨sizeName.bytes, 0, 8, 17, 3⟩ := by
    rw [loadSymbol_eq (nameField_of_at hnames.size htable), sizeSymbol, height]
    rfl
  have hdataSymbol : loadSymbol table (dataSymbol names.data n : Sym c) =
      some ⟨dataName.bytes, 8, n, 17, 3⟩ := by
    rw [loadSymbol_eq (nameField_of_at hnames.data htable), dataSymbol, height,
      castOf_of_lt hsize]
    rfl
  unfold loadSymbols
  simp only [hlink, hcount, hentries, hstrtab, symbolTable, List.mapM_cons, List.mapM_nil, hnull,
    hsizeSymbol, hdataSymbol, Option.bind_eq_bind, Option.bind_some]
  rfl

/-- With short names and a size below 4 GiB the reader finds the data and the symbols. -/
theorem parseElf_of_fits (hfile : file = elfFile (headOf o arch)
      (sectionHeaders o names input.bytes.length table.length)
      (symbolTable o names input.sizeOfData) input.bytes table)
    (hnames : NamesAt secname dataName sizeName names table) (htable : table.length ≤ 256)
    (hsize : sizeOfObj c + input.bytes.length < 2 ^ 32) :
    ∃ obj, parseElf file = some obj ∧
      (∃ s, obj.sections[3]? = some s ∧ s.bytes = input.bytes ∧
        s.name = (rodataName secname).bytes) ∧
      obj.symbols = [⟨[], 0, 0, 0, 0⟩, ⟨sizeName.bytes, 0, 8, 17, 3⟩,
        ⟨dataName.bytes, 8, input.sizeOfData, 17, 3⟩] := by
  obtain ⟨-, -, hsymtabAt, hdataAt, htableAt, -⟩ := elfFile_places hfile rfl rfl
  have hdataSize : input.bytes.length < 2 ^ 32 := by omega
  have hsymtabLength : ((sym c).encodeAll (symbolTable o names input.sizeOfData)).length =
      3 * (sym c).size := by
    rw [Codec.length_encodeAll, Nat.mul_comm]
    rfl
  obtain ⟨s₀, hs₀, htype₀⟩ := loadSection_null o file hnames
  obtain ⟨s₁, hs₁, htype₁, hbytes₁⟩ := loadSection_strtab o htableAt hnames htable hsize
  obtain ⟨s₂, hs₂, htype₂, hlink₂, hbytes₂⟩ :=
    loadSection_symtab o hsymtabAt hsymtabLength hnames htable
  obtain ⟨s₃, hs₃, hname₃, htype₃, hbytes₃⟩ :=
    loadSection_rodata o hdataAt hnames htable hdataSize
  -- what the reader gets at each of its steps
  have hstrtab : (sectionHeaders o names input.bytes.length table.length)[
      (headOf o arch).eShstrndx.toNat]? =
        some (strtabHeader o names.strtab input.bytes.length table.length) := rfl
  have hstrings : slice file (strtabHeader o names.strtab input.bytes.length
      table.length).shOffset.toNat (strtabHeader o names.strtab input.bytes.length
        table.length).shSize.toNat = some table := by
    rw [strtabHeader, castOf_of_lt hsize, castOf_of_lt (by omega)]
    exact htableAt.slice
  have hsections : (sectionHeaders o names input.bytes.length table.length).mapM
      (loadSection file table) = some [s₀, s₁, s₂, s₃] := by
    simp only [sectionHeaders, List.mapM_cons, List.mapM_nil, hs₀, hs₁, hs₂, hs₃]
    rfl
  have hfind : [s₀, s₁, s₂, s₃].find? (·.type == 2) = some s₂ := by
    simp [htype₀, htype₁, htype₂]
  have hlinked : [s₀, s₁, s₂, s₃][s₂.link]? = some s₁ := by
    rw [hlink₂]
    rfl
  have hsymbols := loadSymbols_eq hbytes₂ hlinked hbytes₁ hnames htable
    (by
      rw [input.length_eq] at hdataSize
      omega)
  rw [parseElf_elfFile rfl rfl hfile]
  unfold loadObject
  simp only [hstrtab, hstrings, hsections, hfind, hsymbols, Option.bind_eq_bind, Option.bind_some]
  exact ⟨_, rfl, ⟨s₃, rfl, hbytes₃, hname₃⟩, rfl⟩

/-- With short names and a size below 4 GiB the object is what it should be. -/
theorem faithful_of_fits (hfile : file = elfFile (headOf o arch)
      (sectionHeaders o names input.bytes.length table.length)
      (symbolTable o names input.sizeOfData) input.bytes table)
    (hnames : NamesAt secname dataName sizeName names table) (htable : table.length ≤ 256)
    (hsize : sizeOfObj c + input.bytes.length < 2 ^ 32) :
    ∃ obj, parseElf file = some obj ∧ Faithful secname dataName sizeName input file obj := by
  obtain ⟨-, -, -, -, -, hlength⟩ := elfFile_places hfile rfl rfl
  obtain ⟨obj, hparse, hdata, hsymbols⟩ := parseElf_of_fits hfile hnames htable hsize
  obtain ⟨hmap, hextents⟩ := parseElf_extents hfile hparse
  have hdataSize : input.bytes.length < 2 ^ 32 := by omega
  have htableSize : table.length < 2 ^ 32 := by omega
  have hobj := sizeOfObj_eq c
  have hend : (ehdr c).size + 4 * (shdr c).size = offsetOfSymbs c := rfl
  have hend' : offsetOfSymbs c + 3 * (sym c).size = sizeOfObj c := rfl
  rw [hmap, Nat.mod_eq_of_lt hsize, Nat.mod_eq_of_lt hdataSize, Nat.mod_eq_of_lt htableSize]
    at hextents
  refine ⟨obj, hparse, hdata, ?_, ?_, ?_, ?_⟩
  · rw [hsymbols]
    rfl
  · rw [hsymbols]
    rfl
  · rw [hextents]
    simp only [List.mem_cons, forall_eq_or_imp, List.not_mem_nil, false_imp_iff, implies_true,
      and_true]
    omega
  · rw [hextents]
    simp only [List.pairwise_cons, List.mem_cons, forall_eq_or_imp, List.not_mem_nil,
      false_imp_iff, implies_true, and_true, List.Pairwise.nil, Apart]
    omega

/-- What the writer has written when it returns. -/
theorem writeElf_eq_some (h : writeElf o arch secname dataName sizeName input = some file) :
    ∃ (names : NameOffsets) (table : StringTable),
      addNames secname dataName sizeName = some (names, table) ∧
      file = elfFile (headOf o arch) (sectionHeaders o names input.bytes.length table.bytes.length)
        (symbolTable o names input.sizeOfData) input.bytes table.bytes := by
  simp only [writeElf, Option.bind_eq_bind, Option.bind_eq_some_iff, Prod.exists] at h
  obtain ⟨names, table, hnames, h⟩ := h
  obtain rfl := Option.some.inj h
  rw [← input.length_eq, List.take_length]
  exact ⟨names, table, hnames, rfl⟩

/-- **The exact condition of a faithful object**: for either class, every data and all names, the
writer stays in the string table and the reader finds what was to be written just in case the names
fit the table with those of the sections, and the end of the data is below 4 GiB. -/
theorem writeElf_faithful_iff (o : Template c) (arch : BitVec 8) (secname dataName sizeName : Text)
    (input : InputData) :
    (∃ file obj, writeElf o arch secname dataName sizeName input = some file ∧
      parseElf file = some obj ∧ Faithful secname dataName sizeName input file obj) ↔
    28 + dataName.bytes.length + sizeName.bytes.length + secname.bytes.length ≤ 256 ∧
      sizeOfObj c + (input.sizeOfData + 8) < 2 ^ 32 := by
  rw [← input.length_eq]
  constructor
  · rintro ⟨file, obj, hwrite, hparse, hfaithful⟩
    obtain ⟨names, table, hnames, hfile⟩ := writeElf_eq_some hwrite
    refine ⟨exists_addNames_iff.mp ⟨names, table, hnames⟩, ?_⟩
    refine sizes_of_faithful hfile table.fits ?_ hparse hfaithful
    intro hempty
    have hlength := (addNames_eq_some hnames).2
    rw [hempty, List.length_nil] at hlength
    omega
  · rintro ⟨hfits, hsize⟩
    obtain ⟨names, table, hnames⟩ := exists_addNames_iff.mpr hfits
    have hwrite : ∃ file, writeElf o arch secname dataName sizeName input = some file := by
      unfold writeElf
      simp only [hnames, Option.bind_eq_bind, Option.bind_some]
      exact ⟨_, rfl⟩
    obtain ⟨file, hwrite⟩ := hwrite
    obtain ⟨names, table, hnames, hfile⟩ := writeElf_eq_some hwrite
    obtain ⟨obj, hparse, hfaithful⟩ :=
      faithful_of_fits hfile (addNames_eq_some hnames).1 table.fits hsize
    exact ⟨file, obj, hwrite, hparse, hfaithful⟩

end Condition

/-- The object of `main` with nothing but its initial values. -/
def Template.initial : Template .elf64 where
  head := ⟨⟨[0x7f, 69, 76, 70, 2, 1, 1, 0, 0, 0, 0, 0, 0, 0, 0, 0], rfl⟩, 0, 0, 0, 0, 0, 0, 0, 0, 0,
    0, 0, 0, 0⟩
  sections _ := Shdr.null _
  symbs _ := Sym.null _
  ident := rfl
  nullSection := rfl
  nullSymbol := rfl

/-- A name of 250 letters. -/
def longName : Text :=
  ⟨List.replicate 250 100, fun h => absurd (List.eq_of_mem_replicate h) (by decide)⟩

/-- With it the writer runs out of the string table. -/
theorem writeElf_longDataName :
    ¬ ∃ file obj, writeElf Template.initial 183 ⟨[114, 111, 102, 115], by decide⟩ longName
        ⟨[115], by decide⟩ ⟨List.replicate 9 0, 1, rfl⟩ = some file ∧
      parseElf file = some obj ∧
      Faithful ⟨[114, 111, 102, 115], by decide⟩ longName ⟨[115], by decide⟩
        ⟨List.replicate 9 0, 1, rfl⟩ file obj := by
  rintro ⟨file, obj, hwrite, -, -⟩
  obtain ⟨names, table, hnames, -⟩ := writeElf_eq_some hwrite
  have hfits := exists_addNames_iff.mp ⟨names, table, hnames⟩
  have hlength : longName.bytes.length = 250 := List.length_replicate
  rw [hlength] at hfits
  exact absurd hfits (by decide)

end Elf

end LumeBinaryCompile
