import Sg200x.Isp.CText

/-!
# Runtime control of the image processor

`isp_control.c` as the patches 0004 and 0005 of the SC035HGS middleware leave it: the exposure
and noise attributes, and the commands that read and write them.  The attributes are kept by the
vendor's library; every call of it succeeds or fails, and a failed call changes nothing.
-/

namespace Sg200x.Isp

abbrev Bytes := List UInt8

def controlCommandSize : ℕ := 256

def controlResponseSize : ℕ := 4096

def controlMaxArguments : ℕ := 5

def exposureTimeMaxUs : ℕ := 33000

def manualIsoMin : ℕ := 100

def manualIsoMax : ℕ := 0x7fffffff

def manualGainMin : ℕ := 0x400

def manualGainMax : ℕ := 0x7fffffff

def manualIspDGainMax : ℕ := 0x40000

def eperm : ℤ := 1

def enoent : ℤ := 2

def eio : ℤ := 5

def einval : ℤ := 22

def erange : ℤ := 34

/-! ## Attributes -/

inductive OpType
  | auto
  | manual
  | other (number : ℤ)
  deriving DecidableEq

def OpType.number : OpType → ℤ
  | auto => 0
  | manual => 1
  | other number => number

inductive GainType
  | iso
  | gain
  | other (number : ℤ)
  deriving DecidableEq

/-- `stManual` of the exposure attribute. -/
structure ManualExposure where
  expTimeOpType : OpType
  aGainOpType : OpType
  dGainOpType : OpType
  ispDGainOpType : OpType
  isoNumOpType : OpType
  gainType : GainType
  expTime : UInt32
  aGain : UInt32
  dGain : UInt32
  ispDGain : UInt32
  isoNum : UInt32
  deriving DecidableEq

/-- `ISP_EXPOSURE_ATTR_S`; `rest` are the members that nothing here names. -/
structure ExposureAttr where
  byPass : Bool
  opType : OpType
  manual : ManualExposure
  rest : Bytes
  deriving DecidableEq

/-- `ISP_EXP_INFO_S` -/
structure ExpInfo where
  expTime : UInt32
  iso : UInt32
  aGain : UInt32
  dGain : UInt32
  ispDGain : UInt32
  deriving DecidableEq

/-- `ISP_NR_ATTR_S`, `ISP_YNR_ATTR_S` and `ISP_TNR_ATTR_S`: a strength, and a curve of strengths
over the ISO; `rest` are the members that nothing here names. -/
structure StrengthAttr (n : ℕ) where
  enable : ℤ
  opType : OpType
  manual : UInt8
  auto : Vector UInt8 n
  rest : Bytes
  deriving DecidableEq

/-- `ISP_SHARPEN_ATTR_S` -/
structure SharpenAttr (n : ℕ) where
  enable : ℤ
  opType : OpType
  manualGlobalGain : UInt8
  manualOverShootGain : UInt8
  manualUnderShootGain : UInt8
  autoGlobalGain : Vector UInt8 n
  autoOverShootGain : Vector UInt8 n
  autoUnderShootGain : Vector UInt8 n
  rest : Bytes
  deriving DecidableEq

/-- The six records of noise and sharpening; `n` is `ISP_AUTO_ISO_STRENGTH_NUM`. -/
structure NoiseRecords (n : ℕ) where
  bnr : StrengthAttr n
  bnrFilter : Bytes
  ynr : StrengthAttr n
  ynrFilter : Bytes
  tnr : StrengthAttr n
  sharpen : SharpenAttr n
  deriving DecidableEq

structure NoiseSnapshot (n : ℕ) where
  valid : Bool
  records : NoiseRecords n
  deriving DecidableEq

/-! ## The vendor's library -/

inductive Record
  | exposure
  | bnr
  | bnrFilter
  | ynr
  | ynrFilter
  | tnr
  | sharpen
  deriving DecidableEq

inductive Call
  | get (record : Record)
  | set (record : Record)
  | queryExposureInfo
  deriving DecidableEq

/-- What the library answers while one command is handled, in which no function of it is called
twice. -/
structure Answers where
  succeeds : Call → Bool
  info : ExpInfo

/-- The attributes that the library keeps, and `saved_noise`. -/
structure State (n : ℕ) where
  exposure : ExposureAttr
  noise : NoiseRecords n
  savedNoise : NoiseSnapshot n
  deriving DecidableEq

variable {n : ℕ}

/-! ## Exposure -/

def parseU32 (text : Text) (minimum maximum : ℕ) : Except ℤ UInt32 :=
  if text = [] ∨ text.head? = some '-' then .error (-einval)
  else
    let parsed := strtoull text
    if parsed.outOfRange ∨ parsed.rest ≠ [] ∨ parsed.value < minimum ∨ maximum < parsed.value then
      .error (-erange)
    else .ok (UInt32.ofNat parsed.value)

def getExposureAttr (answers : Answers) (s : State n) : Except ℤ ExposureAttr :=
  if answers.succeeds (.get .exposure) then .ok s.exposure else .error (-eio)

def setExposureAttr (answers : Answers) (s : State n) (exposure : ExposureAttr) : State n × ℤ :=
  if answers.succeeds (.set .exposure) then ({ s with exposure := exposure }, 0) else (s, -eio)

def queryExposureInfo (answers : Answers) : Except ℤ ExpInfo :=
  if answers.succeeds .queryExposureInfo then .ok answers.info else .error (-eio)

def reply (text : Text) : Text := snprintf controlResponseSize text

def replyCode (text : String) (ret : ℤ) : Text := reply (text.toList ++ signedDecimal ret)

def formatStatus (answers : Answers) (s : State n) : Text :=
  match getExposureAttr answers s with
  | .error ret => replyCode "ERR query_failed code=" ret
  | .ok exposure =>
      match queryExposureInfo answers with
      | .error ret => replyCode "ERR query_failed code=" ret
      | .ok info =>
          let modes : String × String := match exposure.opType with
            | .auto => ("auto", "auto")
            | .manual => ("manual", if exposure.manual.gainType = .gain then "gain" else "iso")
            | .other _ => ("unknown", "unknown")
          reply ("OK mode=".toList ++ modes.1.toList ++ " gain_mode=".toList ++ modes.2.toList ++
            " exptime_us=".toList ++ decimal info.expTime.toNat ++
            " iso=".toList ++ decimal info.iso.toNat ++
            " again=".toList ++ decimal info.aGain.toNat ++
            " dgain=".toList ++ decimal info.dGain.toNat ++
            " ispdgain=".toList ++ decimal info.ispDGain.toNat)

/-- Reads the attribute, changes it and writes it back. -/
def updateExposure (answers : Answers) (s : State n)
    (update : ExposureAttr → Except ℤ ExposureAttr) : State n × ℤ :=
  match getExposureAttr answers s with
  | .error ret => (s, ret)
  | .ok exposure =>
      match update exposure with
      | .error ret => (s, ret)
      | .ok exposure => setExposureAttr answers s exposure

def autoExposure (exposure : ExposureAttr) : ExposureAttr :=
  { exposure with
    byPass := false
    opType := .auto
    manual := { exposure.manual with
      expTimeOpType := .auto
      aGainOpType := .auto
      dGainOpType := .auto
      ispDGainOpType := .auto
      isoNumOpType := .auto } }

def setAutoExposure (answers : Answers) (s : State n) : State n × ℤ :=
  updateExposure answers s fun exposure => .ok (autoExposure exposure)

def manualIso (exptime iso : UInt32) (exposure : ExposureAttr) : ExposureAttr :=
  { exposure with
    byPass := false
    opType := .manual
    manual := { exposure.manual with
      expTimeOpType := .manual
      expTime := exptime
      gainType := .iso
      isoNumOpType := .manual
      isoNum := iso
      aGainOpType := .auto
      dGainOpType := .auto
      ispDGainOpType := .auto } }

def setManualIso (answers : Answers) (s : State n) (exptime iso : UInt32) : State n × ℤ :=
  updateExposure answers s fun exposure => .ok (manualIso exptime iso exposure)

/-- The `switch` over `value_index`. -/
def manualValue (valueIndex : ℕ) (value : UInt32) (m : ManualExposure) :
    Except ℤ ManualExposure :=
  match valueIndex with
  | 0 => .ok { m with expTimeOpType := .manual, expTime := value }
  | 1 => .ok { m with gainType := .iso, isoNumOpType := .manual, isoNum := value }
  | 2 => .ok { m with
      gainType := .gain, isoNumOpType := .auto, aGainOpType := .manual, aGain := value }
  | 3 => .ok { m with
      gainType := .gain, isoNumOpType := .auto, dGainOpType := .manual, dGain := value }
  | 4 => .ok { m with
      gainType := .gain, isoNumOpType := .auto, ispDGainOpType := .manual, ispDGain := value }
  | _ => .error (-einval)

def setManualValue (answers : Answers) (s : State n) (valueIndex : ℕ) (value : UInt32) :
    State n × ℤ :=
  updateExposure answers s fun exposure =>
    if exposure.opType ≠ .manual then .error (-eperm)
    else (manualValue valueIndex value exposure.manual).map fun m => { exposure with manual := m }

def manualGains (again dgain ispdgain : UInt32) (m : ManualExposure) : ManualExposure :=
  { m with
    gainType := .gain
    isoNumOpType := .auto
    aGainOpType := .manual
    dGainOpType := .manual
    ispDGainOpType := .manual
    aGain := again
    dGain := dgain
    ispDGain := ispdgain }

def setManualGains (answers : Answers) (s : State n) (again dgain ispdgain : UInt32) :
    State n × ℤ :=
  updateExposure answers s fun exposure =>
    if exposure.opType ≠ .manual then .error (-eperm)
    else .ok { exposure with manual := manualGains again dgain ispdgain exposure.manual }

def formatSetResult (ret : ℤ) : Text :=
  if ret = -eperm then reply "ERR manual_mode_required".toList
  else if ret ≠ 0 then replyCode "ERR apply_failed code=" ret
  else reply "OK applied".toList

/-! ## Noise -/

def noiseRecords : List Record := [.bnr, .bnrFilter, .ynr, .ynrFilter, .tnr, .sharpen]

def readNoiseSnapshot (answers : Answers) (s : State n) : Except ℤ (NoiseRecords n) :=
  if noiseRecords.all fun record => answers.succeeds (.get record) then .ok s.noise
  else .error (-eio)

def saveNoiseSnapshot (answers : Answers) (s : State n) : State n × ℤ :=
  match readNoiseSnapshot answers s with
  | .error ret => (s, ret)
  | .ok records => ({ s with savedNoise := ⟨true, records⟩ }, 0)

/-- One record as another set of records has it. -/
def NoiseRecords.copy (records source : NoiseRecords n) : Record → NoiseRecords n
  | .exposure => records
  | .bnr => { records with bnr := source.bnr }
  | .bnrFilter => { records with bnrFilter := source.bnrFilter }
  | .ynr => { records with ynr := source.ynr }
  | .ynrFilter => { records with ynrFilter := source.ynrFilter }
  | .tnr => { records with tnr := source.tnr }
  | .sharpen => { records with sharpen := source.sharpen }

/-- The order in which the records are restored. -/
def restoredRecords : List Record := [.bnrFilter, .bnr, .ynrFilter, .ynr, .tnr, .sharpen]

/-- What the six setters leave; each is called whether or not the others fail. -/
def restoreRecords (answers : Answers) (saved : NoiseRecords n) (records : NoiseRecords n) :
    NoiseRecords n :=
  restoredRecords.foldl (fun records record =>
    if answers.succeeds (.set record) then records.copy saved record else records) records

def restoreNoiseSnapshot (answers : Answers) (s : State n) : State n × ℤ :=
  if s.savedNoise.valid = false then (s, -enoent)
  else
    let restored := { s with noise := restoreRecords answers s.savedNoise.records s.noise }
    if restoredRecords.any fun record => ! answers.succeeds (.set record) then (restored, -eio)
    else
      match readNoiseSnapshot answers restored with
      | .error _ => (restored, -eio)
      | .ok current => (restored, if current = s.savedNoise.records then 0 else -eio)

/-- Nothing when the text does not fit any more. -/
def appendResponse (used piece : Text) : Option Text :=
  if used.length + piece.length < controlResponseSize then some (used ++ piece) else none

/-- The pieces of `append_u8_curve`. -/
def u8Curve (values : Vector UInt8 n) : List Text :=
  values.toList.mapIdx fun i value => (if i ≠ 0 then ",".toList else []) ++ decimal value.toNat

def moduleStatus (start : String) (enable : ℤ) (opType : OpType) (manual : Text) (stop : String) :
    Text :=
  start.toList ++ signedDecimal enable ++ " op=".toList ++ signedDecimal opType.number ++
    " manual=".toList ++ manual ++ stop.toList

def noiseStatus (snapshot : Bool) (current : NoiseRecords n) : List Text :=
  [("OK snapshot=".toList ++ decimal (if snapshot then 1 else 0)) ++
    moduleStatus " bnr enable=" current.bnr.enable current.bnr.opType
      (decimal current.bnr.manual.toNat) " auto="] ++
    u8Curve current.bnr.auto ++
  [moduleStatus " ynr enable=" current.ynr.enable current.ynr.opType
      (decimal current.ynr.manual.toNat) " auto="] ++
    u8Curve current.ynr.auto ++
  [moduleStatus " tnr enable=" current.tnr.enable current.tnr.opType
      (decimal current.tnr.manual.toNat) " auto="] ++
    u8Curve current.tnr.auto ++
  [moduleStatus " sharpen enable=" current.sharpen.enable current.sharpen.opType
      (decimal current.sharpen.manualGlobalGain.toNat ++ "/".toList ++
        decimal current.sharpen.manualOverShootGain.toNat ++ "/".toList ++
        decimal current.sharpen.manualUnderShootGain.toNat) " auto_global="] ++
    u8Curve current.sharpen.autoGlobalGain ++
  [" auto_over=".toList] ++ u8Curve current.sharpen.autoOverShootGain ++
  [" auto_under=".toList] ++ u8Curve current.sharpen.autoUnderShootGain

def formatNoiseStatus (answers : Answers) (s : State n) : Text :=
  match readNoiseSnapshot answers s with
  | .error ret => replyCode "ERR noise_query_failed code=" ret
  | .ok current =>
      match (noiseStatus s.savedNoise.valid current).foldlM appendResponse [] with
      | none => reply "ERR noise_response_too_large".toList
      | some response => response

inductive NoiseModule
  | bnr
  | ynr
  | tnr
  | sharpen
  deriving DecidableEq

def NoiseModule.ofText (text : Text) : Option NoiseModule :=
  if text = "bnr".toList then some .bnr
  else if text = "ynr".toList then some .ynr
  else if text = "tnr".toList then some .tnr
  else if text = "sharpen".toList then some .sharpen
  else none

def NoiseModule.record : NoiseModule → Record
  | bnr => .bnr
  | ynr => .ynr
  | tnr => .tnr
  | sharpen => .sharpen

def NoiseRecords.opType (records : NoiseRecords n) : NoiseModule → OpType
  | .bnr => records.bnr.opType
  | .ynr => records.ynr.opType
  | .tnr => records.tnr.opType
  | .sharpen => records.sharpen.opType

/-- The automatic curve of a module that `noise set` edits. -/
def NoiseRecords.curve (records : NoiseRecords n) : NoiseModule → Vector UInt8 n
  | .bnr => records.bnr.auto
  | .ynr => records.ynr.auto
  | .tnr => records.tnr.auto
  | .sharpen => records.sharpen.autoGlobalGain

def NoiseRecords.withCurve (records : NoiseRecords n) (curve : Vector UInt8 n) :
    NoiseModule → NoiseRecords n
  | .bnr => { records with bnr := { records.bnr with auto := curve } }
  | .ynr => { records with ynr := { records.ynr with auto := curve } }
  | .tnr => { records with tnr := { records.tnr with auto := curve } }
  | .sharpen => { records with sharpen := { records.sharpen with autoGlobalGain := curve } }

def setNoiseValue (answers : Answers) (s : State n) (moduleName : Text) (isoIndex value : ℕ) :
    State n × ℤ :=
  if s.savedNoise.valid = false then (s, -enoent)
  else if h : isoIndex < n ∧ value ≤ 255 then
    match NoiseModule.ofText moduleName with
    | none => (s, -einval)
    | some m =>
        if ! answers.succeeds (.get m.record) then (s, -eio)
        else if s.noise.opType m ≠ .auto then (s, -eperm)
        else if answers.succeeds (.set m.record) then
          ({ s with noise :=
            s.noise.withCurve ((s.noise.curve m).set isoIndex (UInt8.ofNat value) h.1) m }, 0)
        else (s, -eio)
  else (s, -erange)

/-! ## Commands -/

def helpText : Text :=
  ("OK commands=get|auto|manual <us> <iso>|exptime <us>|" ++
    "iso <n>|again <n>|dgain <n>|ispdgain <n>|" ++
    "gains <again> <dgain> <ispdgain>|noise get|" ++
    "noise save|noise restore|" ++
    "noise set <bnr|ynr|tnr|sharpen> <iso-index> <0-255>").toList

/-- The reply to a command that returns 0 or a negative code. -/
def replyResult (ok err : String) (result : State n × ℤ) : State n × Text :=
  (result.1, if result.2 ≠ 0 then replyCode err result.2 else reply ok.toList)

def setResult (result : State n × ℤ) : State n × Text := (result.1, formatSetResult result.2)

def handleCommand (answers : Answers) (s : State n) (command : Text) : State n × Text :=
  let arguments := tokens command
  let argument := fun i => arguments.getD i []
  let count := arguments.length
  if controlMaxArguments < count then (s, reply "ERR too_many_arguments".toList)
  else if count = 0 ∨ argument 0 = "help".toList then (s, reply helpText)
  else if argument 0 = "get".toList ∧ count = 1 then (s, formatStatus answers s)
  else if argument 0 = "noise".toList ∧ count = 2 ∧ argument 1 = "get".toList then
    (s, formatNoiseStatus answers s)
  else if argument 0 = "noise".toList ∧ count = 2 ∧ argument 1 = "save".toList then
    replyResult "OK noise_saved" "ERR noise_save_failed code=" (saveNoiseSnapshot answers s)
  else if argument 0 = "noise".toList ∧ count = 2 ∧ argument 1 = "restore".toList then
    replyResult "OK noise_restored" "ERR noise_restore_failed code="
      (restoreNoiseSnapshot answers s)
  else if argument 0 = "noise".toList ∧ count = 5 ∧ argument 1 = "set".toList then
    match parseU32 (argument 3) 0 (n - 1), parseU32 (argument 4) 0 255 with
    | .ok isoIndex, .ok value =>
        replyResult "OK noise_applied" "ERR noise_apply_failed code="
          (setNoiseValue answers s (argument 2) isoIndex.toNat value.toNat)
    | _, _ => (s, reply "ERR invalid_noise_value".toList)
  else if argument 0 = "auto".toList ∧ count = 1 then setResult (setAutoExposure answers s)
  else if argument 0 = "manual".toList ∧ count = 3 then
    match parseU32 (argument 1) 1 exposureTimeMaxUs,
      parseU32 (argument 2) manualIsoMin manualIsoMax with
    | .ok exptime, .ok iso => setResult (setManualIso answers s exptime iso)
    | _, _ => (s, reply "ERR invalid_manual_value".toList)
  else if (argument 0 = "exptime".toList ∨ argument 0 = "iso".toList) ∧ count = 2 then
    let minimum := if argument 0 = "exptime".toList then 1 else manualIsoMin
    let maximum := if argument 0 = "exptime".toList then exposureTimeMaxUs else manualIsoMax
    let valueIndex := if argument 0 = "exptime".toList then 0 else 1
    match parseU32 (argument 1) minimum maximum with
    | .ok value => setResult (setManualValue answers s valueIndex value)
    | .error _ => (s, reply "ERR invalid_value".toList)
  else if (argument 0 = "again".toList ∨ argument 0 = "dgain".toList ∨
      argument 0 = "ispdgain".toList) ∧ count = 2 then
    let gainIndex := if argument 0 = "again".toList then 2
      else if argument 0 = "dgain".toList then 3 else 4
    let maximum := if gainIndex = 4 then manualIspDGainMax else manualGainMax
    match parseU32 (argument 1) manualGainMin maximum with
    | .ok value => setResult (setManualValue answers s gainIndex value)
    | .error _ => (s, reply "ERR invalid_gain".toList)
  else if argument 0 = "gains".toList ∧ count = 4 then
    match parseU32 (argument 1) manualGainMin manualGainMax,
      parseU32 (argument 2) manualGainMin manualGainMax,
      parseU32 (argument 3) manualGainMin manualIspDGainMax with
    | .ok again, .ok dgain, .ok ispdgain =>
        setResult (setManualGains answers s again dgain ispdgain)
    | _, _, _ => (s, reply "ERR invalid_gain".toList)
  else (s, reply "ERR invalid_command".toList)

/-- What the server does with a datagram of a client. -/
def handleDatagram (answers : Answers) (s : State n) (datagram : Text) : State n × Text :=
  if controlCommandSize ≤ datagram.length then (s, reply "ERR command_too_long".toList)
  else handleCommand answers s datagram

end Sg200x.Isp
