import Dwadelib.FileView.Numerals
import Dwadelib.Hardware.Marks
import Dwadelib.Hardware.Serials

namespace Dwadelib.Hardware

open FileView (hexPad)

/-! # The identity of a machine

`hardware_info_get` writes a digest of what the processor and the disk tell. Each of the two is asked in several ways,
until one tells something. The digest is the one of a library.
-/

/-- What `HDIO_GET_IDENTITY` fills in of `struct hd_driveid`. -/
structure Drive where
  fd : Int
  ioctl : Int
  serialNo : List UInt8
  size : serialNo.length = 20

/-- What a command comes to, and the file that it leaves. -/
structure Finished where
  status : Int
  file : Option (List UInt8)
  deriving DecidableEq, Repr

/-- What the programs ask the machine for. Devices are known by their names, commands by their texts. -/
structure Machine where
  s1 : UInt32
  s2 : UInt32
  uid : Nat
  mtab : Option (List UInt8)
  drive : (name : List UInt8) → Drive
  disk : (name : List UInt8) → Disk
  system : (command : List UInt8) → Finished

/-- The bytes that are looked at or written. -/
inductive Look where
  | serial (place : Nat)
  | reply (place : Nat)
  | line (inspection : Inspection)
  | digest (place : Nat)
  | info (place : Nat)
  deriving DecidableEq, Repr

def ascii (text : String) : List UInt8 := text.toList.map fun char => .ofNat char.toNat

/-- `snprintf` for a text without numbers. -/
def snprintf (size : Nat) (text : List UInt8) : List UInt8 := text.take (size - 1)

/-- `if (way(serial_no)) return true;`, and then another way. -/
def otherwise (way : Traced Look (List UInt8 × Bool)) (other : List UInt8 → Traced Look (List UInt8 × Bool)) :
    Traced Look (List UInt8 × Bool) := do
  let (serialNo, found) ← way
  if found then return (serialNo, true) else other serialNo

/-- What three programs in the shell and their readers have in common. -/
def byProgram (reads : Option (List UInt8) → List UInt8 → List UInt8 → Traced Inspection (List UInt8))
    (matchWords : List UInt8) (finished : Finished) (known : List UInt8) : Traced Look (List UInt8 × Bool) := do
  if finished.status = 0 then
    let known ← .renote .line (reads finished.file matchWords known)
    return (known, !known.isEmpty)
  else return (known, !known.isEmpty)

/-- The bytes of a number in the other order. -/
def htonl (value : UInt32) : UInt32 :=
  value <<< 24 ||| (value <<< 8 &&& (0xFF0000 : UInt32)) ||| (value >>> 8 &&& (0xFF00 : UInt32)) ||| value >>> 24

def getCpuIdByAsm (machine : Machine) : List UInt8 × Bool :=
  if machine.s1 = 0 ∧ machine.s2 = 0 then ([], false)
  else (hexPad 8 (htonl machine.s2).toNat ++ hexPad 8 (htonl machine.s1).toNat, true)

def getCpuIdBySystem (machine : Machine) (cpuId : List UInt8) : Traced Look (List UInt8 × Bool) :=
  byProgram parseCpuId (ascii "ID:")
    (machine.system (snprintf 512 (ascii "dmidecode -t 4 | grep ID > .dmidecode_result.txt"))) cpuId

/-- The new `cpu_id` and what is returned. -/
def getCpuId (machine : Machine) : Traced Look (List UInt8 × Bool) := do
  let (cpuId, found) := getCpuIdByAsm machine
  if found then return (cpuId, true)
  else if machine.uid = 0 then getCpuIdBySystem machine cpuId
  else return (cpuId, false)

def getDiskSerialByWay1 (drive : Drive) : Traced Nat (List UInt8 × Bool) := do
  if drive.fd = -1 then return ([], false)
  else if drive.ioctl = 0 then
    let serialNo ← trimSerial drive.serialNo 0 20 []
    return (serialNo, !serialNo.isEmpty)
  else return ([], false)

def hdparmCommand (diskName : List UInt8) : List UInt8 :=
  snprintf 512 (ascii "hdparm -i " ++ CString.contents diskName ++ ascii " | grep SerialNo > .hdparm_result.txt")

def getDiskSerialByWay3 (machine : Machine) (diskName serialNo : List UInt8) : Traced Look (List UInt8 × Bool) :=
  byProgram getSerial (ascii "SerialNo=") (machine.system (hdparmCommand diskName)) serialNo

def getDiskSerialByWay4 (machine : Machine) (serialNo : List UInt8) : Traced Look (List UInt8 × Bool) :=
  byProgram getSerial (ascii "serial:")
    (machine.system (snprintf 512 (ascii "lshw -class disk | grep serial > .lshw_result.txt"))) serialNo

/-- The ways that need the name of the disk. -/
def getDiskSerialByName (machine : Machine) (diskName : List UInt8) : Traced Look (List UInt8 × Bool) :=
  otherwise (.renote .serial (getDiskSerialByWay1 (machine.drive (CString.contents diskName)))) fun _ =>
    otherwise (.renote .reply (getDiskSerialByWay2 (machine.disk (CString.contents diskName)))) fun serialNo =>
      getDiskSerialByWay3 machine diskName serialNo

/-- The new `serial_no` and what is returned. -/
def getDiskSerialNumber (machine : Machine) : Traced Look (List UInt8 × Bool) := do
  if machine.uid ≠ 0 then return ([], false)
  else
    let (diskName, named) ← .renote .line (getDiskName machine.mtab [])
    if named then otherwise (getDiskSerialByName machine diskName) (getDiskSerialByWay4 machine)
    else getDiskSerialByWay4 machine []

/-- A text is put into an array. -/
def put (cells : List UInt8) (start : Nat) (text : List UInt8) : Traced Look (List UInt8) :=
  { noted := (List.range' start text.length).map .info, outcome := .ofOption (Cells.store cells start text) }

/-- One round of the loop of `md5_hex2str`. -/
def md5Round (inMd5Hex : List UInt8) (state : Nat × List UInt8) :
    Traced Look (Iteration (Nat × List UInt8) (List UInt8)) := do
  let (i, outMd5Str) := state
  if i < 16 then
    let byte ← .peek .digest inMd5Hex i
    let outMd5Str ← put outMd5Str (i * 2) (hexPad 2 byte.toNat ++ [0])
    return .next (i + 1, outMd5Str)
  else return .stop outMd5Str

def md5Hex2str (inMd5Hex outMd5Str : List UInt8) : Traced Look (List UInt8) := do
  let outMd5Str ← .loop (md5Round inMd5Hex) 17 (0, outMd5Str)
  put outMd5Str 32 [0]

def hardInfo (cpuId serialNo : List UInt8) : List UInt8 := ascii "cpuid:" ++ cpuId ++ ascii "->disk:" ++ serialNo

/-- The new `md5_info` and what is returned. Only the string in the text is hashed. -/
def hardwareInfoGet (md5 : List UInt8 → Vector UInt8 16) (machine : Machine) (md5Info : List UInt8) (len : Int) :
    Traced Look (List UInt8 × Int) := do
  if len < 33 then return (md5Info, -1)
  else
    let (cpuId, found) ← getCpuId machine
    if found then
      let (serialNo, found) ← getDiskSerialNumber machine
      if found then
        let md5Hex := md5 (CString.contents (hardInfo cpuId serialNo))
        let md5Info ← md5Hex2str md5Hex.toList md5Info
        return (md5Info, 0)
      else return (md5Info, -1)
    else return (md5Info, -1)

/-- What the array has of `HDIO_GET_IDENTITY`. -/
def driveText (drive : Drive) : List UInt8 :=
  if drive.fd ≠ -1 ∧ drive.ioctl = 0 then trim isspace isTail drive.serialNo else []

instance (disk : Disk) : Decidable (Replies disk) :=
  inferInstanceAs (Decidable (disk.fd ≠ -1 ∧ 0 ≤ disk.versionIoctl ∧ 30000 ≤ disk.version ∧ scsiIo disk))

/-- What the reply to `SG_IO` has. -/
def replyText (disk : Disk) : List UInt8 := if Replies disk then pageText disk else []

/-- What the file of a command has, if the command was successful. -/
def reportText (matchWords : List UInt8) (finished : Finished) : List UInt8 :=
  if finished.status = 0 then (finished.file.bind fun text => serialAmong matchWords (storable text)).getD [] else []

def processorText (machine : Machine) : List UInt8 :=
  if machine.s1 = 0 ∧ machine.s2 = 0 then
    let finished := machine.system (snprintf 512 (ascii "dmidecode -t 4 | grep ID > .dmidecode_result.txt"))
    if machine.uid = 0 ∧ finished.status = 0 then
      (finished.file.map fun text => firstKept notBlank keptCounts (ascii "ID:") (readable text)).getD []
    else []
  else hexPad 8 (htonl machine.s2).toNat ++ hexPad 8 (htonl machine.s1).toNat

/-- The texts of the ways, in their order. -/
def diskTexts (machine : Machine) : List (List UInt8) :=
  ((mountedDisk machine.mtab).elim [] fun name =>
      [driveText (machine.drive name), replyText (machine.disk name),
        reportText (ascii "SerialNo=") (machine.system (hdparmCommand name))]) ++
    [reportText (ascii "serial:")
      (machine.system (snprintf 512 (ascii "lshw -class disk | grep serial > .lshw_result.txt")))]

/-- The first text that is not empty. -/
def firstText (texts : List (List UInt8)) : List UInt8 := (texts.find? fun text => text ≠ []).getD []

def diskText (machine : Machine) : List UInt8 := if machine.uid = 0 then firstText (diskTexts machine) else []

variable {machine : Machine} {known matchWords text md5Info : List UInt8} {drive : Drive} {disk : Disk}
  {finished : Finished}

/-- All that is done is inside the arrays. -/
def Look.Inside : Look → Prop
  | .serial place => place < 20
  | .reply place => place < 0x00ff
  | .line inspection => inspection.place < inspection.line.length
  | .digest place => place < 16
  | .info place => place < 33

theorem contents_whole (free : 0 ∉ text) : CString.contents text = text := by
  rw [CString.contents, List.takeWhile_eq_self_iff]
  intro byte member
  exact decide_eq_true fun zero => free (zero ▸ member)

theorem inside_of_string {inspection : Inspection} (inside : InsideString inspection) : (Look.line inspection).Inside := by
  obtain ⟨string, rest, -, same, most⟩ := inside
  show inspection.place < inspection.line.length
  rw [same, stored, List.length_append, List.length_cons]
  omega

theorem inside_of_line {inspection : Inspection} {lines : List (List UInt8)} (inside : InsideLine lines inspection) :
    (Look.line inspection).Inside := by
  obtain ⟨line, -, begins, most⟩ := inside
  have room := begins.length_le
  rw [List.length_append, List.length_singleton] at room
  show inspection.place < inspection.line.length
  omega

/-- A way tells a text, and says whether there is one. -/
def tells (text : List UInt8) : List UInt8 × Bool := (text, !text.isEmpty)

theorem byProgram_yields {reads : Option (List UInt8) → List UInt8 → List UInt8 → Traced Inspection (List UInt8)}
    {result : List UInt8} {allowed : Inspection → Prop}
    (inside : ∀ inspection, allowed inspection → (Look.line inspection).Inside)
    (told : Traced.Yields allowed (reads finished.file matchWords known) result) :
    Traced.Yields Look.Inside (byProgram reads matchWords finished known)
      (tells (if finished.status = 0 then result else known)) := by
  rw [byProgram]
  by_cases successful : finished.status = 0
  · rw [if_pos successful, if_pos successful]
    exact Traced.yields_bind (Traced.yields_renote told inside) Traced.yields_pure
  · rw [if_neg successful, if_neg successful]
    exact Traced.yields_pure

theorem getCpuIdBySystem_yields :
    Traced.Yields Look.Inside (getCpuIdBySystem machine []) (tells (
      let finished := machine.system (snprintf 512 (ascii "dmidecode -t 4 | grep ID > .dmidecode_result.txt"))
      if finished.status = 0 then
        (finished.file.map fun text => firstKept notBlank keptCounts (ascii "ID:") (readable text)).getD []
      else [])) := by
  refine byProgram_yields (fun _ => inside_of_string) ?_
  cases (machine.system _).file with
  | none => exact Traced.yields_pure
  | some text => exact parseCpuId_first text _

theorem bySerial_yields (matchWords : List UInt8) (finished : Finished) :
    Traced.Yields Look.Inside (byProgram getSerial matchWords finished []) (tells (reportText matchWords finished)) := by
  cases file : finished.file with
  | none =>
      rw [reportText, file]
      refine byProgram_yields (fun _ (inside : InsideLine [] _) => inside_of_line inside) ?_
      rw [file]
      exact Traced.yields_pure
  | some text =>
      rw [reportText, file]
      refine byProgram_yields (fun _ (inside : InsideLine (storable text) _) => inside_of_line inside) ?_
      rw [file]
      exact getSerial_yields text

theorem getDiskSerialByWay1_yields :
    Traced.Yields (fun place => place < 20) (getDiskSerialByWay1 drive) (tells (driveText drive)) := by
  have size := drive.size
  have trimmed : Traced.Yields (fun place => place < 20) (trimSerial drive.serialNo 0 20 [])
      (trim isspace isTail (slice drive.serialNo 0 (0 + 20))) :=
    trimSerial_yields (by omega) fun place _ upper => by omega
  have whole : slice drive.serialNo 0 (0 + 20) = drive.serialNo := by
    rw [slice, Nat.zero_add, ← size, List.take_length, List.drop_zero]
  rw [whole] at trimmed
  rw [getDiskSerialByWay1, driveText]
  by_cases opened : drive.fd = -1
  · rw [if_pos opened, if_neg fun both => both.1 opened]
    exact Traced.yields_pure
  · by_cases answered : drive.ioctl = 0
    · rw [if_neg opened, if_pos answered, if_pos ⟨opened, answered⟩]
      exact Traced.yields_bind trimmed Traced.yields_pure
    · rw [if_neg opened, if_neg answered, if_neg fun both => answered both.2]
      exact Traced.yields_pure

theorem getDiskSerialByWay2_yields (short : Replies disk → pageLen disk ≤ 251) :
    Traced.Yields (fun place => place < 0x00ff) (getDiskSerialByWay2 disk) (tells (replyText disk)) := by
  by_cases replies : Replies disk
  · have size := disk.size
    have fourth : Traced.Yields (fun place => place < 0x00ff) (.peek id disk.data 3) (disk.data.getD 3 0) :=
      ⟨pageLen_peek, Traced.notes_single rfl (by decide)⟩
    have room : 4 + (disk.data.getD 3 0).toNat ≤ 0x00ff := Nat.add_le_add_left (short replies) 4
    have page : Traced.Yields (fun place => place < 0x00ff) (trimSerial disk.data 4 (disk.data.getD 3 0).toNat [])
        (pageText disk) :=
      trimSerial_yields (by omega) fun place _ upper => by omega
    rw [replyText, if_pos replies, getDiskSerialByWay2_asks replies]
    exact Traced.yields_bind fourth (Traced.yields_bind page Traced.yields_pure)
  · rw [replyText, if_neg replies, getDiskSerialByWay2]
    split
    · exact Traced.yields_pure
    · split
      · exact Traced.yields_pure
      · split
        · rename_i opened answered done
          exact absurd ⟨opened, by omega, by omega, done⟩ replies
        · exact Traced.yields_pure

@[simp] theorem firstText_empty (texts : List (List UInt8)) : firstText ([] :: texts) = firstText texts := rfl

theorem firstText_some (some : text ≠ []) (texts : List (List UInt8)) : firstText (text :: texts) = text := by
  rw [firstText, List.find?_cons_of_pos (by simpa using some)]
  rfl

theorem firstText_single (text : List UInt8) : firstText [text] = text := by
  by_cases empty : text = []
  · rw [empty]
    rfl
  · exact firstText_some empty []

theorem firstText_append (texts : List (List UInt8)) (last : List UInt8) :
    firstText (texts ++ [last]) = firstText [firstText texts, last] := by
  induction texts with
  | nil => rfl
  | cons text texts ih =>
      cases text with
      | nil => exact ih
      | cons byte text =>
          rw [List.cons_append, firstText_some (List.cons_ne_nil byte text), firstText_some (List.cons_ne_nil byte text),
            firstText_some (List.cons_ne_nil byte text)]

/-- Where a way does not tell anything it is another one's turn. -/
theorem otherwise_yields {way : Traced Look (List UInt8 × Bool)} {other : List UInt8 → Traced Look (List UInt8 × Bool)}
    {texts : List (List UInt8)} (first : Traced.Yields Look.Inside way (tells text))
    (second : Traced.Yields Look.Inside (other []) (tells (firstText texts))) :
    Traced.Yields Look.Inside (otherwise way other) (tells (firstText (text :: texts))) := by
  refine Traced.yields_bind first ?_
  cases text with
  | nil => exact second
  | cons byte text =>
      rw [firstText_some (List.cons_ne_nil byte text)]
      exact Traced.yields_pure

theorem getDiskSerialByName_yields {name : List UInt8} (free : 0 ∉ name)
    (short : Replies (machine.disk name) → pageLen (machine.disk name) ≤ 251) :
    Traced.Yields Look.Inside (getDiskSerialByName machine name)
      (tells (firstText [driveText (machine.drive name), replyText (machine.disk name),
        reportText (ascii "SerialNo=") (machine.system (hdparmCommand name))])) := by
  have way1 : Traced.Yields Look.Inside (.renote .serial (getDiskSerialByWay1 (machine.drive name)))
      (tells (driveText (machine.drive name))) :=
    Traced.yields_renote getDiskSerialByWay1_yields fun _ inside => inside
  have way2 : Traced.Yields Look.Inside (.renote .reply (getDiskSerialByWay2 (machine.disk name)))
      (tells (replyText (machine.disk name))) :=
    Traced.yields_renote (getDiskSerialByWay2_yields short) fun _ inside => inside
  rw [getDiskSerialByName, contents_whole free]
  refine otherwise_yields way1 ?_
  refine otherwise_yields way2 ?_
  rw [firstText_single]
  exact bySerial_yields _ _

/-- The name of a disk is a part of a line. -/
theorem rootDisk_free {line name : List UInt8} (free : 0 ∉ line) (named : rootDisk line = some name) : 0 ∉ name := by
  intro member
  simp only [rootDisk] at named
  split at named
  · cases named
    have device := (List.rdropWhile_prefix _ _).subset member
    have front := (List.takeWhile_prefix _).subset device
    exact free ((List.dropWhile_suffix _).subset front)
  · contradiction

theorem mountedDisk_free {mtab : Option (List UInt8)} {name : List UInt8} (named : mountedDisk mtab = some name) :
    0 ∉ name := by
  obtain ⟨text, -, found⟩ := Option.bind_eq_some_iff.mp named
  obtain ⟨line, member, disk⟩ := List.exists_of_findSome?_eq_some found
  obtain ⟨whole, -, rfl⟩ := List.mem_map.mp member
  exact rootDisk_free contents_free disk

theorem getDiskSerialNumber_yields (short : ∀ name, Replies (machine.disk name) → pageLen (machine.disk name) ≤ 251) :
    Traced.Yields Look.Inside (getDiskSerialNumber machine) (tells (diskText machine)) := by
  have way4 : Traced.Yields Look.Inside (getDiskSerialByWay4 machine []) _ := bySerial_yields _ _
  have table : Traced.Yields Look.Inside (.renote .line (getDiskName machine.mtab [])) _ :=
    Traced.yields_renote (getDiskName_yields machine.mtab) fun _ => inside_of_string
  rw [getDiskSerialNumber, diskText, diskTexts]
  by_cases root : machine.uid = 0
  · rw [if_neg (not_not.mpr root), if_pos root]
    refine Traced.yields_bind table ?_
    cases named : mountedDisk machine.mtab with
    | none =>
        rw [Option.elim_none, List.nil_append, firstText_single]
        exact way4
    | some name =>
        have byName := getDiskSerialByName_yields (mountedDisk_free named) (short name)
        rw [Option.elim_some, firstText_append]
        exact otherwise_yields byName (by rwa [firstText_single])
  · rw [if_pos root, if_neg root]
    exact Traced.yields_pure

theorem getCpuId_yields : Traced.Yields Look.Inside (getCpuId machine) (tells (processorText machine)) := by
  rw [getCpuId, getCpuIdByAsm, processorText]
  by_cases missing : machine.s1 = 0 ∧ machine.s2 = 0
  · rw [if_pos missing, if_pos missing]
    by_cases root : machine.uid = 0
    · simp only [Bool.false_eq_true, if_false, root, true_and]
      exact getCpuIdBySystem_yields
    · simp only [Bool.false_eq_true, if_false, root, false_and]
      exact Traced.yields_pure
  · rw [if_neg missing, if_neg missing]
    have some : hexPad 8 (htonl machine.s2).toNat ++ hexPad 8 (htonl machine.s1).toNat ≠ [] := by
      have length := FileView.length_hexPad (show (htonl machine.s2).toNat < 16 ^ 8 from UInt32.toNat_lt _) (by decide)
      intro empty
      rw [List.append_eq_nil_iff] at empty
      rw [empty.1] at length
      contradiction
    rw [tells, List.isEmpty_eq_false_iff.mpr some]
    exact Traced.yields_pure

def digestText (digest : List UInt8) : List UInt8 := digest.flatMap fun byte => hexPad 2 byte.toNat

theorem length_hexPair (byte : UInt8) : (hexPad 2 byte.toNat).length = 2 :=
  FileView.length_hexPad (show byte.toNat < 16 ^ 2 from byte.toNat_lt) (by decide)

theorem digestText_next {digest : List UInt8} {i : Nat} (inside : i < digest.length) :
    digestText (digest.take (i + 1)) = digestText (digest.take i) ++ hexPad 2 digest[i].toNat := by
  rw [digestText, digestText, List.take_add_one, List.getElem?_eq_getElem inside, Option.toList_some,
    List.flatMap_append, List.flatMap_singleton]

theorem put_yields {cells : List UInt8} {start : Nat} (room : start + text.length ≤ 33) (fits : 33 ≤ cells.length) :
    Traced.Yields Look.Inside (put cells start text)
      (cells.take start ++ text ++ cells.drop (start + text.length)) := by
  rw [put, Cells.store_exists (Nat.le_trans room fits)]
  refine ⟨rfl, ?_⟩
  intro look member
  obtain ⟨place, inside, rfl⟩ := List.mem_map.mp member
  show place < 33
  have bounds := (List.mem_range'_1.mp inside).2
  omega

/-- The digits of the first bytes are written, and what is behind them and a zero byte is as before. -/
structure Written (digest md5Info : List UInt8) (state : Nat × List UInt8) : Prop where
  counted : state.1 ≤ 16
  front : state.2.take (state.1 * 2) = digestText (digest.take state.1)
  rest : state.2.drop (state.1 * 2 + 1) = md5Info.drop (state.1 * 2 + 1)
  size : state.2.length = md5Info.length

theorem written_next {digest outMd5Str : List UInt8} {i : Nat} (fits : 33 ≤ md5Info.length)
    (more : i < 16) (inside : i < digest.length) (written : Written digest md5Info (i, outMd5Str)) :
    Written digest md5Info (i + 1,
      outMd5Str.take (i * 2) ++ (hexPad 2 digest[i].toNat ++ [0]) ++ outMd5Str.drop (i * 2 + 3)) := by
  obtain ⟨-, front, rest, size⟩ := written
  have pair := length_hexPair digest[i]
  have length : outMd5Str.length = md5Info.length := size
  have frontLength : (outMd5Str.take (i * 2)).length = i * 2 := List.length_take_of_le (by omega)
  constructor
  · exact more
  · show List.take ((i + 1) * 2) _ = _
    rw [← List.append_assoc, List.append_assoc (_ ++ _), List.take_left' (by rw [List.length_append]; omega), front,
      digestText_next inside]
  · have later : outMd5Str.drop (i * 2 + 3) = md5Info.drop ((i + 1) * 2 + 1) := by
      calc
        outMd5Str.drop (i * 2 + 3) = (outMd5Str.drop (i * 2 + 1)).drop 2 := by rw [List.drop_drop]
        _ = (md5Info.drop (i * 2 + 1)).drop 2 := by rw [show outMd5Str.drop (i * 2 + 1) = _ from rest]
        _ = md5Info.drop ((i + 1) * 2 + 1) := by rw [List.drop_drop]; congr 1; omega
    show List.drop ((i + 1) * 2 + 1) _ = _
    rw [List.drop_left' (by simp only [List.length_append, List.length_singleton]; omega), later]
  · simp only [List.length_append, List.length_singleton, List.length_drop]
    omega

theorem md5Round_yields {digest : List UInt8} {state : Nat × List UInt8} (sized : digest.length = 16)
    (fits : 33 ≤ md5Info.length) (written : Written digest md5Info state) :
    (∃ result, Traced.Yields Look.Inside (md5Round digest state) (.stop result) ∧ Written digest md5Info (16, result)) ∨
      ∃ after, Traced.Yields Look.Inside (md5Round digest state) (.next after) ∧ Written digest md5Info after ∧
        16 - after.1 < 16 - state.1 := by
  obtain ⟨i, outMd5Str⟩ := state
  by_cases more : i < 16
  · right
    have inside : i < digest.length := by omega
    have length : (hexPad 2 digest[i].toNat ++ [0]).length = 3 := by
      rw [List.length_append, length_hexPair]
      rfl
    have room : i * 2 + (hexPad 2 digest[i].toNat ++ [0]).length ≤ 33 := by omega
    have looked : Traced.Yields Look.Inside (.peek Look.digest digest i) digest[i] := Traced.yields_peek inside more
    have stored := put_yields room (show 33 ≤ outMd5Str.length from written.size ▸ fits)
    rw [length] at stored
    simp only [md5Round, if_pos more]
    refine ⟨_, Traced.yields_bind looked (Traced.yields_bind stored Traced.yields_pure),
      written_next fits more inside written, ?_⟩
    show 16 - (i + 1) < 16 - i
    omega
  · left
    obtain rfl : i = 16 := Nat.le_antisymm written.counted (Nat.le_of_not_lt more)
    refine ⟨outMd5Str, ?_, written⟩
    simp only [md5Round, if_neg more]
    exact Traced.yields_pure

theorem md5Hex2str_yields {digest : List UInt8} (sized : digest.length = 16) (fits : 33 ≤ md5Info.length) :
    Traced.Yields Look.Inside (md5Hex2str digest md5Info) (digestText digest ++ 0 :: md5Info.drop 33) := by
  have start : Written digest md5Info (0, md5Info) := ⟨Nat.zero_le _, rfl, rfl, rfl⟩
  obtain ⟨result, looped, -, front, rest, size⟩ := Traced.yields_loop (fun state : Nat × List UInt8 => 16 - state.1)
    (fun _ written => md5Round_yields sized fits written) start (show 16 - 0 < 17 by decide)
  have last : Traced.Yields Look.Inside (put result 32 [0]) (result.take 32 ++ [0] ++ result.drop (32 + 1)) :=
    put_yields (by decide) (size ▸ fits)
  have digits : result.take 32 = digestText digest := by
    rw [← List.take_of_length_le (Nat.le_of_eq sized)]
    exact front
  have behind : result.drop (32 + 1) = md5Info.drop 33 := rest
  rw [digits, behind, List.append_assoc, List.singleton_append] at last
  exact Traced.yields_bind looped last

/-- The new `md5_info` and what is returned, when the ways tell these texts. -/
def infoOf (md5 : List UInt8 → Vector UInt8 16) (cpuId serialNo md5Info : List UInt8) (len : Int) : List UInt8 × Int :=
  if len < 33 ∨ cpuId = [] ∨ serialNo = [] then (md5Info, -1)
  else (digestText (md5 (CString.contents (hardInfo cpuId serialNo))).toList ++ 0 :: md5Info.drop 33, 0)

/-- Whatever the machine answers, with pages that the reply has room for, `hardware_info_get` looks at nothing outside
of its arrays, and writes 33 bytes or none. The digest is the one of the first texts that the ways tell. -/
theorem hardwareInfoGet_yields (md5 : List UInt8 → Vector UInt8 16) {len : Int} (room : len ≤ md5Info.length)
    (short : ∀ name, Replies (machine.disk name) → pageLen (machine.disk name) ≤ 251) :
    Traced.Yields Look.Inside (hardwareInfoGet md5 machine md5Info len)
      (infoOf md5 (processorText machine) (diskText machine) md5Info len) := by
  rw [hardwareInfoGet, infoOf]
  by_cases small : len < 33
  · rw [if_pos small, if_pos (.inl small)]
    exact Traced.yields_pure
  · rw [if_neg small]
    refine Traced.yields_bind getCpuId_yields ?_
    by_cases unknown : processorText machine = []
    · rw [if_pos (.inr (.inl unknown)), tells, unknown]
      exact Traced.yields_pure
    · have known : (!(processorText machine).isEmpty) = true := by simpa using unknown
      simp only [tells, known, if_true]
      refine Traced.yields_bind (getDiskSerialNumber_yields short) ?_
      by_cases silent : diskText machine = []
      · simp only [tells, silent, List.isEmpty_nil, Bool.not_true, Bool.false_eq_true, if_false, or_true, if_true]
        exact Traced.yields_pure
      · have told : (!(diskText machine).isEmpty) = true := by simpa using silent
        simp only [tells, told, if_true]
        rw [if_neg (by simp only [small, unknown, silent, or_self, not_false_eq_true])]
        exact Traced.yields_bind (md5Hex2str_yields Vector.length_toList (by omega)) Traced.yields_pure

/-- A machine whose disk has its serial number in `HDIO_GET_IDENTITY`. -/
def desktop : Machine where
  s1 := 0xBFEBFBFF
  s2 := 0x000906E9
  uid := 0
  mtab := some (ascii "proc /proc proc rw 0 0\n/dev/sda1 / ext4 rw 0 0\n")
  drive := fun name => {
    fd := if name = ascii "/dev/sda" then 3 else -1
    ioctl := 0
    serialNo := ascii "   S3Z9NB0K         "
    size := rfl }
  disk := fun _ => answering [] (by decide)
  system := fun _ => { status := 127, file := none }

/-- It is known by `cpuid:E9060900FFFBEBBF->disk:S3Z9NB0K`. -/
theorem hardwareInfoGet_yields_desktop :
    let md5 (text : List UInt8) : Vector UInt8 16 :=
      if text = ascii "cpuid:E9060900FFFBEBBF->disk:S3Z9NB0K" then
        #v[112, 51, 31, 166, 197, 145, 139, 20, 17, 213, 79, 222, 198, 112, 244, 200]
      else .replicate 16 0
    Traced.Yields Look.Inside (hardwareInfoGet md5 desktop (.replicate 40 9) 33)
      (ascii "70331FA6C5918B1411D54FDEC670F4C8" ++ 0 :: .replicate 7 9, 0) :=
  hardwareInfoGet_yields _ (by decide) fun _ _ => show pageLen (answering [] (by decide)) ≤ 251 by decide

end Dwadelib.Hardware
