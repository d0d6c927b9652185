import OpenHarmonyMac.LumeBinaryCompile.StringTable

/-!
# COFF objects

`WriteObj` writes an object for Windows: a header, one section header, two symbols, the string
table and the data. A reader goes by the fields of the headers alone.

* `writeObj` — the writer, `none` where it writes outside of a buffer or a field
* `parseCoff` — a reader of COFF objects
* `writeObj_faithful_iff` — when the reader finds what was to be written
-/

namespace LumeBinaryCompile

namespace Coff

open Infra

/-- `IMAGE_FILE_HEADER` -/
structure ImageFileHeader where
  machine : BitVec 16
  numberOfSections : BitVec 16
  timeDateStamp : BitVec 32
  pointerToSymbolTable : BitVec 32
  numberOfSymbols : BitVec 32
  sizeOfOptionalHeader : BitVec 16
  characteristics : BitVec 16
  deriving DecidableEq

/-- `IMAGE_SECTION_HEADER` -/
structure ImageSectionHeader where
  name : { bs : Bytes // bs.length = 8 }
  virtualSize : BitVec 32
  virtualAddress : BitVec 32
  sizeOfRawData : BitVec 32
  pointerToRawData : BitVec 32
  pointerToRelocations : BitVec 32
  pointerToLinenumbers : BitVec 32
  numberOfRelocations : BitVec 16
  numberOfLinenumbers : BitVec 16
  characteristics : BitVec 32
  deriving DecidableEq

/-- `IMAGE_SYMBOL`. The name is in the string table when `short` is 0. -/
structure ImageSymbol where
  short : BitVec 32
  long : BitVec 32
  value : BitVec 32
  sectionNumber : BitVec 16
  type : BitVec 16
  storageClass : BitVec 8
  numberOfAuxSymbols : BitVec 8
  deriving DecidableEq

def imageFileHeader : Codec ImageFileHeader :=
  ((Codec.word 2).pair ((Codec.word 2).pair ((Codec.word 4).pair ((Codec.word 4).pair
    ((Codec.word 4).pair ((Codec.word 2).pair (Codec.word 2))))))).map
    (fun (machine, numberOfSections, timeDateStamp, pointerToSymbolTable, numberOfSymbols,
        sizeOfOptionalHeader, characteristics) =>
      { machine, numberOfSections, timeDateStamp, pointerToSymbolTable, numberOfSymbols,
        sizeOfOptionalHeader, characteristics })
    (fun h => (h.machine, h.numberOfSections, h.timeDateStamp, h.pointerToSymbolTable,
      h.numberOfSymbols, h.sizeOfOptionalHeader, h.characteristics))
    fun _ => rfl

def imageSectionHeader : Codec ImageSectionHeader :=
  ((Codec.raw 8).pair ((Codec.word 4).pair ((Codec.word 4).pair ((Codec.word 4).pair
    ((Codec.word 4).pair ((Codec.word 4).pair ((Codec.word 4).pair ((Codec.word 2).pair
      ((Codec.word 2).pair (Codec.word 4)))))))))).map
    (fun (name, virtualSize, virtualAddress, sizeOfRawData, pointerToRawData,
        pointerToRelocations, pointerToLinenumbers, numberOfRelocations, numberOfLinenumbers,
        characteristics) =>
      { name, virtualSize, virtualAddress, sizeOfRawData, pointerToRawData,
        pointerToRelocations, pointerToLinenumbers, numberOfRelocations, numberOfLinenumbers,
        characteristics })
    (fun s => (s.name, s.virtualSize, s.virtualAddress, s.sizeOfRawData, s.pointerToRawData,
      s.pointerToRelocations, s.pointerToLinenumbers, s.numberOfRelocations,
      s.numberOfLinenumbers, s.characteristics))
    fun _ => rfl

def imageSymbol : Codec ImageSymbol :=
  ((Codec.word 4).pair ((Codec.word 4).pair ((Codec.word 4).pair ((Codec.word 2).pair
    ((Codec.word 2).pair ((Codec.word 1).pair (Codec.word 1))))))).map
    (fun (short, long, value, sectionNumber, type, storageClass, numberOfAuxSymbols) =>
      { short, long, value, sectionNumber, type, storageClass, numberOfAuxSymbols })
    (fun s => (s.short, s.long, s.value, s.sectionNumber, s.type, s.storageClass,
      s.numberOfAuxSymbols))
    fun _ => rfl

/-! ## The writer -/

/-- `IMAGE_FILE_MACHINE_I386` and `IMAGE_FILE_MACHINE_AMD64` -/
def machine (x64 : Bool) : BitVec 16 := if x64 then 0x8664 else 0x014c

/-- `"_"` in front of the names of an x86 object. -/
def decorated (x64 : Bool) (name : Text) : Text :=
  if x64 then name else Text.append ⟨[95], by decide⟩ name

/-- The copy of the name to `Name` and the NUL behind it, `none` when that is outside of the
field. -/
def sectionName (secname : Text) : Option { bs : Bytes // bs.length = 8 } :=
  if h : secname.bytes.length < 8 then
    some ⟨secname.bytes ++ List.replicate (8 - secname.bytes.length) 0, by
      rw [List.length_append, List.length_replicate]
      omega⟩
  else none

/-- `offsetof(decltype(obj), symtab)` -/
def offsetOfSymtab : Nat := imageFileHeader.size + imageSectionHeader.size

/-- `sizeof(obj)` -/
def sizeOfObj : Nat := offsetOfSymtab + 2 * imageSymbol.size

/-- The header of the file. -/
def coffHead (x64 : Bool) : ImageFileHeader where
  machine := machine x64
  numberOfSections := 1
  timeDateStamp := 0
  pointerToSymbolTable := BitVec.ofNat 32 offsetOfSymtab
  numberOfSymbols := 2
  sizeOfOptionalHeader := 0
  characteristics := 0

/-- The section. Its characteristics are `IMAGE_SCN_CNT_INITIALIZED_DATA`, `IMAGE_SCN_ALIGN_4BYTES`
and `IMAGE_SCN_MEM_READ`. -/
def sectionHeader (name : { bs : Bytes // bs.length = 8 }) (sizeOfSection stringTableSize : Nat) :
    ImageSectionHeader where
  name := name
  virtualSize := 0
  virtualAddress := 0
  sizeOfRawData := BitVec.ofNat 32 sizeOfSection
  pointerToRawData := BitVec.ofNat 32 ((sizeOfObj + stringTableSize + 3) / 4 * 4)
  pointerToRelocations := 0
  pointerToLinenumbers := 0
  numberOfRelocations := 0
  numberOfLinenumbers := 0
  characteristics := 0x00000040 ||| 0x00300000 ||| 0x40000000

/-- `obj.symtab[0]`, of the class `IMAGE_SYM_CLASS_EXTERNAL`. -/
def sizeSymbol (offset : Nat) : ImageSymbol where
  short := 0
  long := BitVec.ofNat 32 (offset + 4)
  value := 0
  sectionNumber := 1
  type := 0
  storageClass := 2
  numberOfAuxSymbols := 0

/-- `obj.symtab[1]`, an array of characters: `IMAGE_SYM_TYPE_CHAR`, `IMAGE_SYM_DTYPE_ARRAY`. -/
def dataSymbol (offset : Nat) : ImageSymbol where
  short := 0
  long := BitVec.ofNat 32 (offset + 4)
  value := 8
  sectionNumber := 1
  type := 2 ||| (3 <<< 8)
  storageClass := 2
  numberOfAuxSymbols := 0

/-- What is written: the parts of `obj`, the string table with its size, the padding and the
data. -/
def objFile (x64 : Bool) (header : ImageSectionHeader) (symbols : List ImageSymbol)
    (stringTable : Bytes) (padcount : Nat) (data : Bytes) : Bytes :=
  imageFileHeader.encode (coffHead x64) ++ (imageSectionHeader.encode header ++
    (imageSymbol.encodeAll symbols ++ (stringTable ++ (List.replicate padcount 0 ++ data))))

/-- `WriteObj` -/
def writeObj (secname dataName sizeName : Text) (input : InputData) (x64 : Bool) :
    Option Bytes := do
  let sizeOfSection := 8 + input.sizeOfData
  let (dataOffset, table) ← addString ⟨[], by decide⟩ (decorated x64 dataName)
  let (sizeOffset, table) ← addString table (decorated x64 sizeName)
  let stringTableSize := table.bytes.length + 4
  let name ← sectionName secname
  let header := sectionHeader name sizeOfSection stringTableSize
  let p := sizeOfObj + stringTableSize
  let padcount := header.pointerToRawData.toNat - p
  some (objFile x64 header [sizeSymbol sizeOffset, dataSymbol dataOffset]
    (le 4 stringTableSize ++ table.bytes) padcount (input.bytes.take sizeOfSection))

/-! ## A reader -/

/-- A section with its bytes. -/
structure CoffSection where
  header : ImageSectionHeader
  bytes : Bytes
  length_eq : bytes.length = header.sizeOfRawData.toNat

/-- A symbol with its name. -/
structure CoffSymbol where
  name : Bytes
  symbol : ImageSymbol

/-- What the headers lead to. The string table is without the number that says its length. -/
structure CoffObject where
  sections : List CoffSection
  symbols : List CoffSymbol
  strings : Bytes

/-- The bytes of a section. -/
def loadSection (file : Bytes) (header : ImageSectionHeader) : Option CoffSection :=
  match h : slice file header.pointerToRawData.toNat header.sizeOfRawData.toNat with
  | none => none
  | some bytes => some ⟨header, bytes, (slice_eq_some_iff.mp h).2⟩

/-- The name of a symbol, which is in the table or in the two fields themselves. -/
def symbolName (table : Bytes) (s : ImageSymbol) : Option Bytes :=
  if s.short = 0 then cStringAt table s.long.toNat
  else some ((le 4 s.short.toNat ++ le 4 s.long.toNat).takeWhile (· != 0))

/-- Reads an object. The string table follows the symbols, and its length counts itself. -/
def parseCoff (file : Bytes) : Option CoffObject := do
  let head ← imageFileHeader.read file 0
  let headers ← imageSectionHeader.readAll file
    (imageFileHeader.size + head.sizeOfOptionalHeader.toNat) head.numberOfSections.toNat
  let sections ← headers.mapM (loadSection file)
  let entries ← imageSymbol.readAll file head.pointerToSymbolTable.toNat
    head.numberOfSymbols.toNat
  let strings := head.pointerToSymbolTable.toNat + imageSymbol.size * head.numberOfSymbols.toNat
  let length ← (Codec.word 4).read file strings
  let table ← slice file strings length.toNat
  let names ← entries.mapM (symbolName table)
  some { sections, symbols := List.zipWith CoffSymbol.mk names entries, strings := table.drop 4 }

/-! ## What the reader finds -/

/-- The object has one section with the data, which starts at the offset in its header and ends with
the file, and the two symbols with their whole names. The string table has nothing else. -/
structure Faithful (secname dataName sizeName : Text) (input : InputData) (x64 : Bool)
    (file : Bytes) (obj : CoffObject) : Prop where
  oneSection : ∃ s, obj.sections = [s] ∧ s.bytes = input.bytes ∧
    s.header.pointerToRawData.toNat + s.bytes.length = file.length ∧
    s.header.name.val = secname.bytes ++ List.replicate (8 - secname.bytes.length) 0
  symbols : obj.symbols.map (fun s => (s.name, s.symbol.value.toNat,
      s.symbol.sectionNumber.toNat, s.symbol.storageClass.toNat)) =
    [((decorated x64 sizeName).bytes, 0, 1, 2), ((decorated x64 dataName).bytes, 8, 1, 2)]
  strings : obj.strings =
    (decorated x64 dataName).bytes ++ [0] ++ ((decorated x64 sizeName).bytes ++ [0])

section Reader

variable {file table strings bs : Bytes} {header : ImageSectionHeader} {s : ImageSymbol}

theorem loadSection_eq (h : At file header.pointerToRawData.toNat bs)
    (hlen : bs.length = header.sizeOfRawData.toNat) :
    loadSection file header = some ⟨header, bs, hlen⟩ := by
  have hslice := h.slice
  rw [hlen] at hslice
  unfold loadSection
  split
  case h_1 hnone => exact absurd (hslice.symm.trans hnone) (Option.some_ne_none _)
  case h_2 bytes hsome =>
    obtain rfl := Option.some.inj (hslice.symm.trans hsome)
    rfl

theorem symbolName_eq {name : Text} {off : Nat} (hshort : s.short = 0)
    (hlong : s.long.toNat = off) (h : At table off (name.bytes ++ [0])) :
    symbolName table s = some name.bytes := by
  unfold symbolName
  rw [if_pos hshort, hlong]
  exact h.cStringAt name.noNul

theorem sizeOfObj_eq : sizeOfObj = 96 := rfl

end Reader

/-- The parts of an object file lie one behind the other. -/
theorem objFile_places {x64 : Bool} {header : ImageSectionHeader} {symbols : List ImageSymbol}
    {stringTable data file : Bytes} {padcount : Nat}
    (hfile : file = objFile x64 header symbols stringTable padcount data)
    (hsymbols : symbols.length = 2) :
    At file 0 (imageFileHeader.encode (coffHead x64)) ∧
      At file imageFileHeader.size (imageSectionHeader.encodeAll [header]) ∧
      At file offsetOfSymtab (imageSymbol.encodeAll symbols) ∧
      At file sizeOfObj stringTable ∧
      At file (sizeOfObj + stringTable.length + padcount) data ∧
      file.length = sizeOfObj + stringTable.length + padcount + data.length := by
  have hhead : At file 0 (objFile x64 header symbols stringTable padcount data) :=
    hfile ▸ at_self file
  have hsection := hhead.right
  rw [imageFileHeader.length_encode, Nat.zero_add] at hsection
  have hsymtab := hsection.right
  rw [imageSectionHeader.length_encode] at hsymtab
  have hstrings := hsymtab.right
  rw [Codec.length_encodeAll, hsymbols] at hstrings
  have hdata := hstrings.right.right
  rw [List.length_replicate] at hdata
  refine ⟨hhead.left, ?_, hsymtab.left, ?_, ?_, ?_⟩
  · rw [Codec.encodeAll, List.flatMap_singleton]
    exact hsection.left
  · exact hstrings.left
  · exact hdata
  · rw [hfile]
    unfold objFile
    simp only [List.length_append, imageFileHeader.length_encode,
      imageSectionHeader.length_encode, Codec.length_encodeAll, hsymbols, List.length_replicate,
      sizeOfObj_eq]
    have h96 : imageFileHeader.size + imageSectionHeader.size + imageSymbol.size * 2 = 96 := rfl
    omega

/-- The offset of the data is a multiple of 4 behind the string table. -/
theorem pointerToRawData_toNat {name : { bs : Bytes // bs.length = 8 }} {size stringTableSize : Nat}
    (h : stringTableSize ≤ 260) :
    (sectionHeader name size stringTableSize).pointerToRawData.toNat =
      (sizeOfObj + stringTableSize + 3) / 4 * 4 := by
  rw [sectionHeader, sizeOfObj_eq]
  exact toNat_ofNat_of_lt (by omega)

/-- The name of the section, when it fits its field. -/
theorem sectionName_eq_some_iff {secname : Text} {name : { bs : Bytes // bs.length = 8 }} :
    sectionName secname = some name ↔ secname.bytes.length ≤ 7 ∧
      name.val = secname.bytes ++ List.replicate (8 - secname.bytes.length) 0 := by
  unfold sectionName
  constructor
  · intro h
    split at h
    case isTrue hlt =>
      obtain rfl := Option.some.inj h
      exact ⟨by omega, rfl⟩
    case isFalse => cases h
  · rintro ⟨hle, hname⟩
    rw [dif_pos (by omega)]
    exact congrArg some (Subtype.ext hname.symm)

/-- The names are found by the offsets of their symbols, which count the length field. -/
theorem symbolNames_eq {dataName sizeName : Text} {strings length : Bytes}
    (hstrings : strings = dataName.bytes ++ [0] ++ (sizeName.bytes ++ [0]))
    (hfits : strings.length ≤ 256) (hlength : length.length = 4) :
    [sizeSymbol (dataName.bytes.length + 1), dataSymbol 0].mapM (symbolName (length ++ strings)) =
      some [sizeName.bytes, dataName.bytes] := by
  have hfirst : At (length ++ strings) 4 (dataName.bytes ++ [0]) := by
    rw [hstrings, ← hlength]
    exact (at_right _ _).left
  have hsecond : At (length ++ strings) (dataName.bytes.length + 1 + 4)
      (sizeName.bytes ++ [0]) := by
    have h := (at_right length strings).trans
      (hstrings ▸ at_right (dataName.bytes ++ [0]) (sizeName.bytes ++ [0]))
    rwa [hlength, List.length_append, List.length_singleton, Nat.add_comm 4] at h
  -- so the offset of the second name is not truncated
  have hlong : dataName.bytes.length + 1 + 4 < 2 ^ 32 := by
    rw [hstrings] at hfits
    simp only [List.length_append, List.length_singleton] at hfits
    omega
  have hsizeName : symbolName (length ++ strings) (sizeSymbol (dataName.bytes.length + 1)) =
      some sizeName.bytes := by
    refine symbolName_eq rfl ?_ hsecond
    exact toNat_ofNat_of_lt hlong
  have hdataName : symbolName (length ++ strings) (dataSymbol 0) = some dataName.bytes :=
    symbolName_eq rfl rfl hfirst
  simp only [List.mapM_cons, List.mapM_nil, hsizeName, hdataName]
  rfl

/-- Reading a file with short names and a size below 4 GiB. -/
theorem parseCoff_objFile {x64 : Bool} {name : { bs : Bytes // bs.length = 8 }}
    {dataName sizeName : Text} {strings data file : Bytes}
    (hstrings : strings = dataName.bytes ++ [0] ++ (sizeName.bytes ++ [0]))
    (hfits : strings.length ≤ 256) (hsize : data.length < 2 ^ 32)
    (hfile : file = objFile x64 (sectionHeader name data.length (strings.length + 4))
      [sizeSymbol (dataName.bytes.length + 1), dataSymbol 0]
      (le 4 (strings.length + 4) ++ strings)
      ((sectionHeader name data.length (strings.length + 4)).pointerToRawData.toNat -
        (sizeOfObj + (strings.length + 4))) data) :
    ∃ obj, parseCoff file = some obj ∧
      (∃ s, obj.sections = [s] ∧ s.bytes = data ∧
        s.header = sectionHeader name data.length (strings.length + 4) ∧
        s.header.pointerToRawData.toNat + data.length = file.length) ∧
      obj.symbols = [⟨sizeName.bytes, sizeSymbol (dataName.bytes.length + 1)⟩,
        ⟨dataName.bytes, dataSymbol 0⟩] ∧
      obj.strings = strings := by
  obtain ⟨hhead, hsection, hsymbols, htable, hdata, hlength⟩ := objFile_places hfile rfl
  have hpointer : (sectionHeader name data.length (strings.length + 4)).pointerToRawData.toNat =
      (sizeOfObj + (strings.length + 4) + 3) / 4 * 4 := pointerToRawData_toNat (by omega)
  have hraw : data.length =
      (sectionHeader name data.length (strings.length + 4)).sizeOfRawData.toNat := by
    rw [sectionHeader, toNat_ofNat_of_lt hsize]
  rw [List.length_append, length_le] at hdata hlength
  generalize sectionHeader name data.length (strings.length + 4) = header at *
  -- the padding goes up to the data
  have hstart : sizeOfObj + (4 + strings.length) +
      (header.pointerToRawData.toNat - (sizeOfObj + (strings.length + 4))) =
        header.pointerToRawData.toNat := by
    rw [hpointer]
    omega
  rw [hstart] at hdata hlength
  have hcount : (BitVec.ofNat 32 (strings.length + 4)).toNat = strings.length + 4 :=
    toNat_ofNat_of_lt (by omega)
  -- what the reader gets at each of its steps
  have hheaders : imageSectionHeader.readAll file
      (imageFileHeader.size + (coffHead x64).sizeOfOptionalHeader.toNat)
      (coffHead x64).numberOfSections.toNat = some [header] := hsection.readAll
  have hsections : [header].mapM (loadSection file) = some [⟨header, data, hraw⟩] := by
    simp only [List.mapM_cons, List.mapM_nil, loadSection_eq hdata hraw]
    rfl
  have hentries : imageSymbol.readAll file (coffHead x64).pointerToSymbolTable.toNat
      (coffHead x64).numberOfSymbols.toNat =
        some [sizeSymbol (dataName.bytes.length + 1), dataSymbol 0] := hsymbols.readAll
  have hread : (Codec.word 4).read file ((coffHead x64).pointerToSymbolTable.toNat +
      imageSymbol.size * (coffHead x64).numberOfSymbols.toNat) =
        some (BitVec.ofNat 32 (strings.length + 4)) := by
    refine At.read ?_
    change At file sizeOfObj (le 4 (BitVec.ofNat 32 (strings.length + 4)).toNat)
    rw [hcount]
    exact htable.left
  have hslice : slice file ((coffHead x64).pointerToSymbolTable.toNat +
      imageSymbol.size * (coffHead x64).numberOfSymbols.toNat)
      (BitVec.ofNat 32 (strings.length + 4)).toNat =
        some (le 4 (strings.length + 4) ++ strings) := by
    have h := htable.slice
    rw [List.length_append, length_le, Nat.add_comm 4] at h
    rw [hcount]
    exact h
  have hnames := symbolNames_eq hstrings hfits (length_le 4 (strings.length + 4))
  unfold parseCoff
  simp only [hhead.read, hheaders, hsections, hentries, hread, hslice, hnames,
    Option.bind_eq_bind, Option.bind_some]
  refine ⟨_, rfl, ⟨_, rfl, rfl, rfl, hlength.symm⟩, rfl, ?_⟩
  exact List.drop_left' (length_le 4 _)

/-- What the writer has done when it returns: the names fitted their buffers. -/
theorem writeObj_eq_some {secname dataName sizeName : Text} {input : InputData} {x64 : Bool}
    {file : Bytes} (h : writeObj secname dataName sizeName input x64 = some file) :
    secname.bytes.length ≤ 7 ∧
      ((decorated x64 dataName).bytes.length + 1) + ((decorated x64 sizeName).bytes.length + 1) ≤
        256 := by
  simp only [writeObj, Option.bind_eq_bind, Option.bind_eq_some_iff, Prod.exists] at h
  obtain ⟨dataOffset, table, hdata, sizeOffset, table', hsize, name, hname, -⟩ := h
  obtain ⟨hle, -, hbytes⟩ := addString_eq_some_iff.mp hdata
  obtain ⟨hle', -, -⟩ := addString_eq_some_iff.mp hsize
  obtain ⟨hsec, -⟩ := sectionName_eq_some_iff.mp hname
  rw [hbytes, List.nil_append, List.length_append, List.length_singleton] at hle'
  exact ⟨hsec, hle'⟩

/-- What the writer writes when the names fit. -/
theorem writeObj_of_fits {secname dataName sizeName : Text} {x64 : Bool} (input : InputData)
    (hsec : secname.bytes.length ≤ 7)
    (hnames : ((decorated x64 dataName).bytes.length + 1) +
      ((decorated x64 sizeName).bytes.length + 1) ≤ 256) :
    ∃ (name : { bs : Bytes // bs.length = 8 }) (strings file : Bytes),
      name.val = secname.bytes ++ List.replicate (8 - secname.bytes.length) 0 ∧
      strings = (decorated x64 dataName).bytes ++ [0] ++ ((decorated x64 sizeName).bytes ++ [0]) ∧
      writeObj secname dataName sizeName input x64 = some file ∧
      file = objFile x64 (sectionHeader name input.bytes.length (strings.length + 4))
        [sizeSymbol ((decorated x64 dataName).bytes.length + 1), dataSymbol 0]
        (le 4 (strings.length + 4) ++ strings)
        ((sectionHeader name input.bytes.length (strings.length + 4)).pointerToRawData.toNat -
          (sizeOfObj + (strings.length + 4))) input.bytes := by
  have hdata : ∃ table, addString ⟨[], by decide⟩ (decorated x64 dataName) = some (0, table) ∧
      table.bytes = [] ++ ((decorated x64 dataName).bytes ++ [0]) :=
    addString_of_fits (by
      rw [List.length_nil]
      omega)
  obtain ⟨table, hdata, htable⟩ := hdata
  have hlength : table.bytes.length = (decorated x64 dataName).bytes.length + 1 := by
    rw [htable, List.nil_append, List.length_append, List.length_singleton]
  have hsize : ∃ table', addString table (decorated x64 sizeName) =
      some (table.bytes.length, table') ∧
        table'.bytes = table.bytes ++ ((decorated x64 sizeName).bytes ++ [0]) :=
    addString_of_fits (by
      rw [hlength]
      exact hnames)
  obtain ⟨table', hsize, htable'⟩ := hsize
  have hname : ∃ name, sectionName secname = some name := by
    unfold sectionName
    rw [dif_pos (by omega)]
    exact ⟨_, rfl⟩
  obtain ⟨name, hname⟩ := hname
  have hsection : 8 + input.sizeOfData = input.bytes.length := by
    rw [input.length_eq, Nat.add_comm]
  refine ⟨name, table'.bytes, _, (sectionName_eq_some_iff.mp hname).2, ?_, ?_, rfl⟩
  · rw [htable', htable, List.nil_append]
  · unfold writeObj
    simp only [hdata, hsize, hname, hsection, hlength, List.take_length, Option.bind_eq_bind,
      Option.bind_some]

/-- **The exact condition of a faithful object**: for every data and all names, the writer stays in
its buffers and the reader finds what was to be written just in case the name of the section has at
most 7 bytes, the names of the symbols fit the string table, and the size fits its field. -/
theorem writeObj_faithful_iff (secname dataName sizeName : Text) (input : InputData) (x64 : Bool) :
    (∃ file obj, writeObj secname dataName sizeName input x64 = some file ∧
      parseCoff file = some obj ∧ Faithful secname dataName sizeName input x64 file obj) ↔
    secname.bytes.length ≤ 7 ∧
      ((decorated x64 dataName).bytes.length + 1) + ((decorated x64 sizeName).bytes.length + 1) ≤
        256 ∧
      input.sizeOfData + 8 < 2 ^ 32 := by
  constructor
  · rintro ⟨file, obj, hwrite, -, hfaithful⟩
    obtain ⟨hsec, hnames⟩ := writeObj_eq_some hwrite
    obtain ⟨s, -, hbytes, -, -⟩ := hfaithful.oneSection
    refine ⟨hsec, hnames, ?_⟩
    -- the reader takes the size from a field of 32 bits
    calc input.sizeOfData + 8 = s.bytes.length := by rw [hbytes, input.length_eq]
      _ = s.header.sizeOfRawData.toNat := s.length_eq
      _ < 2 ^ 32 := s.header.sizeOfRawData.isLt
  · rintro ⟨hsec, hnames, hsize⟩
    obtain ⟨name, strings, file, hname, hstrings, hwrite, hfile⟩ :=
      writeObj_of_fits input hsec hnames
    have hfits : strings.length ≤ 256 := by
      rw [hstrings, List.length_append, List.length_append, List.length_append,
        List.length_singleton]
      exact hnames
    have hdata : input.bytes.length < 2 ^ 32 := by
      rw [input.length_eq]
      exact hsize
    obtain ⟨obj, hparse, ⟨s, hs, hbytes, hheader, hend⟩, hsymbols, hobjStrings⟩ :=
      parseCoff_objFile hstrings hfits hdata hfile
    refine ⟨file, obj, hwrite, hparse, ⟨s, hs, hbytes, ?_, ?_⟩, ?_, ?_⟩
    · rw [hbytes]
      exact hend
    · rw [hheader]
      exact hname
    · rw [hsymbols]
      rfl
    · rw [hobjStrings]
      exact hstrings

/-- A name of eight letters has its NUL outside of the field. -/
theorem writeObj_longSectionName :
    ¬ ∃ file obj, writeObj ⟨[116, 101, 120, 116, 117, 114, 101, 115], by decide⟩ ⟨[100], by decide⟩
        ⟨[115], by decide⟩ ⟨List.replicate 9 0, 1, rfl⟩ true = some file ∧
      parseCoff file = some obj ∧
      Faithful ⟨[116, 101, 120, 116, 117, 114, 101, 115], by decide⟩ ⟨[100], by decide⟩
        ⟨[115], by decide⟩ ⟨List.replicate 9 0, 1, rfl⟩ true file obj := by
  rintro ⟨file, obj, hwrite, -, -⟩
  have hnone : writeObj ⟨[116, 101, 120, 116, 117, 114, 101, 115], by decide⟩ ⟨[100], by decide⟩
      ⟨[115], by decide⟩ ⟨List.replicate 9 0, 1, rfl⟩ true = none := by rfl
  exact absurd (hnone.symm.trans hwrite) (Option.some_ne_none _).symm

end Coff

end LumeBinaryCompile
