import AeorDb.Wal.Scanner
import AeorDb.Wal.Space

/-! The index as it is kept in the file: bucket pages, and the hot tail behind the log. -/

namespace AeorDb.Wal

open Library Store Header Index

abbrev Key := List UInt8

def hotTailFormatVersion : UInt8 := 1

def hotTailHeaderSize : ℕ := 5 + 1 + 4 + 4 + 4

def writeRecordSize (hashLength : ℕ) : ℕ := 1 + hashLength + 1 + 8 + 4

def voidRecordSize : ℕ := 1 + 8 + 4

-- the version byte of a record is not looked at
def writeRecordAt (hashLength : ℕ) (body : List UInt8) (i : ℕ) : KVEntry Key :=
  let start := i * writeRecordSize hashLength + 1
  ⟨body.getD (start + hashLength) 0, (body.drop start).take hashLength, littleEndian body (start + hashLength + 1) 8,
    littleEndian body (start + hashLength + 9) 4⟩

def voidRecordAt (body : List UInt8) (i : ℕ) : VoidRecord :=
  let start := i * voidRecordSize + 1
  ⟨littleEndian body start 8, littleEndian body (start + 8) 4⟩

def readHotTail (crc32 : Crc32) (f : ByteFile) (offset hashLength : ℕ) : Option (HotTailPayload Key) :=
  (f.readExact offset hotTailHeaderSize).bind fun header =>
    if header.take 5 ≠ hotTailMagic then none
    else if header.getD 5 0 ≠ hotTailFormatVersion then none
    else if (crc32 (header.take 14)).toNat ≠ littleEndian header 14 4 then none
    else
      let writeCount := littleEndian header 6 4
      let voidCount := littleEndian header 10 4
      let writesSize := writeCount * writeRecordSize hashLength
      (f.readExact (offset + hotTailHeaderSize) (writesSize + voidCount * voidRecordSize)).map fun body =>
        ⟨(List.range writeCount).map (writeRecordAt hashLength body),
          (List.range voidCount).map (voidRecordAt (body.drop writesSize))⟩

section

def pageMagic : ℕ := 0xAE0DB905

inductive PageError where
  | tooShort
  | magicMismatch (got : ℕ)
  | crcMismatch (stored computed : ℕ)
  | tooManyEntries (count : ℕ)
  | tooShortFor (required count : ℕ)
  deriving DecidableEq

variable (crc32 : Crc32)

def pageCrc (data : List UInt8) : ℕ := (crc32 (data.take 4 ++ [0, 0, 0, 0] ++ data.drop 8)).toNat

def pageEntrySize (hashLength : ℕ) : ℕ := hashLength + 1 + 8 + 4

def validatedEntryCount (data : List UInt8) (hashLength : ℕ) : Except PageError ℕ :=
  let magic := littleEndian data 0 4
  let count := littleEndian data 8 2
  if data.length < pageHeaderSize then .error .tooShort
  else if magic = 0 ∧ count = 0 then .ok 0
  else if magic ≠ pageMagic then .error (.magicMismatch magic)
  else if littleEndian data 4 4 ≠ pageCrc crc32 data then .error (.crcMismatch (littleEndian data 4 4) (pageCrc crc32 data))
  else if maxEntriesPerPage < count then .error (.tooManyEntries count)
  else if data.length < pageHeaderSize + count * pageEntrySize hashLength then
    .error (.tooShortFor (pageHeaderSize + count * pageEntrySize hashLength) count)
  else .ok count

def pageEntryAt (hashLength : ℕ) (data : List UInt8) (i : ℕ) : KVEntry Key :=
  let start := pageHeaderSize + i * pageEntrySize hashLength
  ⟨data.getD (start + hashLength) 0, (data.drop start).take hashLength, littleEndian data (start + hashLength + 1) 8,
    littleEndian data (start + hashLength + 9) 4⟩

def deserializePage (data : List UInt8) (hashLength : ℕ) : Except PageError (List (KVEntry Key)) :=
  (validatedEntryCount crc32 data hashLength).map fun count => (List.range count).map (pageEntryAt hashLength data)

def findEntryInPageData (data : List UInt8) (hashLength : ℕ) (k : Key) : Option (KVEntry Key) :=
  match deserializePage crc32 data hashLength with
  | .ok entries => (entries.find? (·.hash = k)).filter fun x => !x.isDeleted
  | .error _ => none

end

inductive ReadError where
  | unexpectedEof
  | invalidHashAlgorithm (value : UInt16)
  | shortEntry (totalLength : ℕ)
  | header (error : EntryError)
  | exceedsTotalLength (keyLength valueLength totalLength : ℕ)
  | outsideWal (walStart walEnd : ℕ)
  deriving DecidableEq

abbrev EntryData := EntryHeader × Key × List UInt8

def readEntryAtShared (f : ByteFile) (p : ℕ) : Except ReadError EntryData :=
  match f.readExact p fixedHeaderSize with
  | none => .error .unexpectedEof
  | some fixed =>
    let hashAlgoRaw := UInt16.ofNat (littleEndian fixed 7 2)
    match HashAlgorithm.fromU16 hashAlgoRaw with
    | none => .error (.invalidHashAlgorithm hashAlgoRaw)
    | some hashAlgo =>
      match f.readExact p (littleEndian fixed 27 4) with
      | none => .error .unexpectedEof
      | some entry =>
        let headerSize := fixedHeaderSize + hashAlgo.hashLength
        if entry.length < headerSize then .error (.shortEntry entry.length)
        else
          match EntryHeader.deserialize f p with
          | .error error => .error (.header error)
          | .ok header =>
            if header.totalLength - header.headerSize < header.keyLength + header.valueLength then
              .error (.exceedsTotalLength header.keyLength header.valueLength header.totalLength)
            else
              .ok (header, (entry.drop headerSize).take header.keyLength,
                (entry.drop (headerSize + header.keyLength)).take header.valueLength)

end AeorDb.Wal
