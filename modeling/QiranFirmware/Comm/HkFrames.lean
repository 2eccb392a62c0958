import QiranFirmware.Comm.Hk
import QiranFirmware.Svc.FdirEffects

/-! # The frames read back

The fields of a frame in their order put each of them at the offset of the frame definition, whatever
the code's running offset was made of.
-/
namespace QiranFirmware

open Machine

namespace HkFrame

open FrameField in
def fields (f : HkFrame) : List FrameField :=
  [u8 f.packetId, u8 f.version, u32 f.timestamp] ++
    (List.ofFn fun i => u16 (f.sample.railMv i)) ++
    [u16 f.sample.psTempC100.toUInt16] ++
    (List.ofFn fun i => u16 (f.sample.boardTempC100 i).toUInt16) ++
    [u16 f.sample.ddrTempC100.toUInt16, u32 f.sample.psClockHz, u32 f.sample.plClockHz,
      u8 f.sample.porStatus, u8 f.sample.plConfigDone, u8 f.watchdog,
      u8 f.sample.overcurrentFlags, u8 f.sample.brownoutFlags] ++
    (List.ofFn fun i => u8 (f.sample.plError i)) ++
    [u8 f.sample.bootMode, u32 f.uptime, u16 f.faults]

theorem extent_fields (f : HkFrame) : extent FrameField.width f.fields = 52 := by
  simp only [fields, extent_append, extent_cons, extent_nil, FrameField.extent_ofFn_u8,
    FrameField.extent_ofFn_u16]
  rfl

/-- The definition's offsets are where the fields stand. -/
theorem read_of_laid {buf : Buf} {f : HkFrame} (h : FrameField.Laid buf 0 f.fields) :
    read buf = f := by
  simp only [fields, FrameField.laid_append, extent_append, extent_cons, extent_nil,
    FrameField.extent_ofFn_u8, FrameField.extent_ofFn_u16, FrameField.laid_ofFn_u8,
    FrameField.laid_ofFn_u16, FrameField.Laid, FrameField.In, FrameField.width] at h
  obtain ⟨⟨⟨⟨⟨⟨hhead, hrails⟩, hps, -⟩, hboard⟩, hstatus⟩, herror⟩, hend⟩ := h
  obtain ⟨hid, hversion, htime, -⟩ := hhead
  obtain ⟨hddr, hpsClock, hplClock, hpor, hconfig, hwatchdog, hover, hbrown, -⟩ := hstatus
  obtain ⟨hmode, huptime, hfaults, -⟩ := hend
  apply HkFrame.ext hid hversion htime _ hwatchdog huptime hfaults
  apply HkSample.ext
  · exact funext hrails
  · exact congrArg UInt16.toInt16 hps
  · exact funext fun i => congrArg UInt16.toInt16 (hboard i)
  · exact congrArg UInt16.toInt16 hddr
  · exact hpsClock
  · exact hplClock
  · exact hpor
  · exact hconfig
  · exact hover
  · exact hbrown
  · exact funext herror
  · exact hmode

end HkFrame

namespace StatusFrame

open FrameField in
def fields (f : StatusFrame) : List FrameField :=
  [u8 f.packetId, u8 f.version, u32 f.timestamp, u8 f.payload, u8 f.health] ++
    (List.ofFn fun i => u8 (f.interlock i)) ++ [u16 f.fault, u8 f.severity]

theorem extent_fields (f : StatusFrame) : extent FrameField.width f.fields = 16 := by
  simp only [fields, extent_append, extent_cons, extent_nil, FrameField.extent_ofFn_u8]
  rfl

theorem read_of_laid {buf : Buf} {f : StatusFrame} (h : FrameField.Laid buf 0 f.fields) :
    read buf = f := by
  simp only [fields, FrameField.laid_append, extent_append, extent_cons, extent_nil,
    FrameField.extent_ofFn_u8, FrameField.laid_ofFn_u8, FrameField.Laid, FrameField.In,
    FrameField.width] at h
  obtain ⟨⟨⟨hid, hversion, htime, hpayload, hhealth, -⟩, hinterlock⟩, hfault, hseverity, -⟩ := h
  exact StatusFrame.ext hid hversion htime hpayload hhealth (funext hinterlock) hfault hseverity

def report (f : StatusFrame) : StatusReport where
  payload := .ofNat f.payload.toNat
  health := .ofNat f.health.toNat
  interlock i := .ofNat (f.interlock i).toNat
  fault := .ofNat f.fault.toNat
  severity := .ofNat f.severity.toNat

end StatusFrame

namespace Hk

def reading (k : Hk) : HkSample :=
  match k.sampler with
  | none => zeroSample
  | some sampler =>
    if (sampler zeroSample).status = .ok then (sampler zeroSample).sample else zeroSample

def later (late : UInt32) (v : Svc) : Svc := { v.collectTime with rawTick := v.rawTick + late }

def frameOf (w : Watchdog) (late : UInt32) (k : Hk) (v : Svc) : HkFrame where
  packetId := 0xA5
  version := 1
  timestamp := UInt32.ofNat v.nowMs.toNat
  sample := k.reading
  watchdog := if w.armed then 1 else 0
  uptime := UInt32.ofNat ((later late v).nowMs.toNat / 1000)
  faults := UInt16.ofNat (min v.log.faultTotal.toNat 65535)

def statusFrameOf (report : StatusReport) (v : Svc) : StatusFrame where
  packetId := 0xA6
  version := 1
  timestamp := UInt32.ofNat v.nowMs.toNat
  payload := UInt8.ofNat report.payload.ctorIdx
  health := UInt8.ofNat report.health.ctorIdx
  interlock i := UInt8.ofNat (report.interlock i).ctorIdx
  fault := report.fault.code
  severity := UInt8.ofNat report.severity.ctorIdx

/-- A build has succeeded, has written its bytes and no other, and has put their checksum last. -/
structure WritesFrame (n : UInt32) (buf : Buf) (b : FrameBuild) : Prop where
  status : b.status = .ok
  written : b.written = n
  rest : ∀ i, n ≤ i → b.buf i = buf i
  checksum : b.buf.getU32 (n - 4) = Crc.crc32 (b.buf.bytes 0 (n - 4))

theorem reportAll_eq (faults : List (FaultId × UInt32)) (v : Svc) : v.reportAll faults =
    { v with fdir := (v.reportAll faults).fdir, trace := (v.reportAll faults).trace } := by
  induction faults generalizing v with
  | nil => rfl
  | cons f faults ih => exact ih (v.report f.1 f.2)

theorem sample_fst (k : Hk) (v : Svc) : (k.sample v).1 = k.reading := by
  unfold sample reading
  cases k.sampler with
  | none => rfl
  | some sampler =>
    by_cases hok : (sampler zeroSample).status = .ok
    · simp only [if_pos hok]
    · simp only [if_neg hok]

/-- Reading the board leaves the time and the log. -/
theorem sample_svc (k : Hk) (v : Svc) : (k.sample v).2.2 =
    { v with fdir := (k.sample v).2.2.fdir, trace := (k.sample v).2.2.trace } := by
  unfold sample
  cases k.sampler with
  | none => rfl
  | some sampler =>
    have hall := reportAll_eq (sampler zeroSample).reports v
    by_cases hok : (sampler zeroSample).status = .ok
    · simp only [if_pos hok]
      exact hall
    · simp only [if_neg hok]
      rw [hall]
      rfl

variable {w : Watchdog} {late len : UInt32} {k : Hk} {v : Svc} {buf : Buf}

theorem saturated (faults : UInt32) :
    (if 0xFFFF < faults then 0xFFFF else faults.toUInt16) =
      UInt16.ofNat (min faults.toNat 65535) := by
  by_cases hover : 0xFFFF < faults
  · have hmin : min faults.toNat 65535 = 65535 :=
      Nat.min_eq_right (Nat.le_of_lt (UInt32.lt_iff_toNat_lt.mp hover))
    rw [if_pos hover, hmin]
    rfl
  · have hmin : min faults.toNat 65535 = faults.toNat :=
      Nat.min_eq_left (Nat.not_lt.mp fun h => hover (UInt32.lt_iff_toNat_lt.mpr h))
    rw [if_neg hover, hmin]
    rfl

theorem seconds (ms : UInt64) : (ms / 1000).toUInt32 = UInt32.ofNat (ms.toNat / 1000) := by
  rw [← UInt32.toNat_inj]
  simp

theorem build_eq (hlen : frameBytes ≤ len) : (build w late buf len k v).1 =
    (FrameField.putAll (frameOf w late k v).fields ⟨buf, 0⟩).putCrc.built frameBytes := by
  rw [build, if_neg (UInt32.not_lt.mpr hlen)]
  simp only
  rw [sample_fst, sample_svc, saturated, seconds]
  simp only [HkFrame.fields, FrameField.putAll_append, FrameField.putAll_ofFn FrameField.u8,
    FrameField.putAll_ofFn FrameField.u16]
  rfl

theorem statusBuild_eq (report : StatusReport) (hlen : statusBytes ≤ len) :
    (statusBuild report buf len v).1 =
      (FrameField.putAll (statusFrameOf report v).fields ⟨buf, 0⟩).putCrc.built statusBytes := by
  rw [statusBuild, if_neg (UInt32.not_lt.mpr hlen)]
  simp only [StatusFrame.fields, FrameField.putAll_append, FrameField.putAll_ofFn FrameField.u8]
  rfl

structure Framed (n : UInt32) (fs : List FrameField) (buf : Buf) (b : FrameBuild) : Prop
    extends WritesFrame n buf b where
  bytes : b.buf.bytes 0 n = FrameField.encode (fs ++ [.u32 (Crc.crc32 (FrameField.encode fs))])

theorem framed (buf : Buf) {n : UInt32} {fs : List FrameField}
    (hn : n.toNat = extent FrameField.width fs + 4) :
    Framed n fs buf ((FrameField.putAll fs ⟨buf, 0⟩).putCrc.built n) := by
  have hlt := n.toNat_lt
  have hheld := @FrameField.sealed buf fs (by omega)
  have hlength :
      (FrameField.encode (fs ++ [.u32 (Crc.crc32 (FrameField.encode fs))])).length = n.toNat := by
    rw [FrameField.length_encode, extent_append, hn]
    rfl
  have hoff := hheld.off
  have hbytes := hheld.bytes
  have hrest := hheld.rest
  rw [hlength] at hoff hrest
  rw [UInt32.toNat_inj.mp hoff] at hbytes
  have hfour : (n - 4).toNat = extent FrameField.width fs := by
    rw [UInt32.toNat_sub_of_le _ _ (UInt32.le_iff_toNat_le.mpr (by rw [hn]; exact Nat.le_add_left ..)),
      hn]
    exact Nat.add_sub_cancel ..
  have hbody : (FrameField.putAll fs ⟨buf, 0⟩).putCrc.buf.bytes 0 (n - 4) = FrameField.encode fs := by
    rw [FrameField.encode_append, ← List.nil_append (FrameField.encode fs)] at hbytes
    exact Buf.bytes_of_append hbytes rfl (by rw [hfour, FrameField.length_encode])
  have hcrc := ((FrameField.laid_append ..).mp (@FrameField.laid_of_bytes _ _ [] _ hbytes)).2.1
  have hat : n - 4 = UInt32.ofNat (0 + extent FrameField.width fs) := by
    rw [Nat.zero_add, ← hfour, UInt32.ofNat_toNat]
  refine ⟨⟨if_pos (UInt32.toNat_inj.mp hoff), UInt32.toNat_inj.mp hoff, ?_, ?_⟩, hbytes⟩
  · intro i hi
    exact hrest i (UInt32.le_iff_toNat_le.mp hi)
  · change (FrameField.putAll fs ⟨buf, 0⟩).putCrc.buf.getU32 (n - 4) =
      Crc.crc32 ((FrameField.putAll fs ⟨buf, 0⟩).putCrc.buf.bytes 0 (n - 4))
    rw [hbody, hat]
    exact hcrc

/-- A buffer with the bytes of a frame has its fields. -/
theorem Framed.laid {n : UInt32} {fs : List FrameField} {b : FrameBuild} (h : Framed n fs buf b)
    {buf' : Buf} (hsame : buf'.bytes 0 n = b.buf.bytes 0 n) : FrameField.Laid buf' 0 fs := by
  have hbytes := hsame.trans h.bytes
  exact ((FrameField.laid_append ..).mp (@FrameField.laid_of_bytes _ _ [] _ hbytes)).1

theorem framed_build (w : Watchdog) (late : UInt32) (buf : Buf) (k : Hk) (v : Svc)
    (hlen : frameBytes ≤ len) :
    Framed frameBytes (frameOf w late k v).fields buf (build w late buf len k v).1 := by
  rw [build_eq hlen]
  apply framed
  rw [HkFrame.extent_fields]
  rfl

theorem framed_statusBuild (report : StatusReport) (buf : Buf) (v : Svc)
    (hlen : statusBytes ≤ len) :
    Framed statusBytes (statusFrameOf report v).fields buf (statusBuild report buf len v).1 := by
  rw [statusBuild_eq report hlen]
  apply framed
  rw [StatusFrame.extent_fields]
  rfl

theorem report_statusFrameOf (report : StatusReport) (v : Svc) :
    (statusFrameOf report v).report = report := by
  apply StatusReport.ext
  · change PayloadStatus.ofNat (UInt8.ofNat report.payload.ctorIdx).toNat = report.payload
    cases report.payload <;> rfl
  · change HealthVerdict.ofNat (UInt8.ofNat report.health.ctorIdx).toNat = report.health
    cases report.health <;> rfl
  · funext i
    change InterlockStatus.ofNat (UInt8.ofNat (report.interlock i).ctorIdx).toNat =
      report.interlock i
    cases report.interlock i <;> rfl
  · change FaultId.ofNat report.fault.code.toNat = report.fault
    cases report.fault <;> rfl
  · change Severity.ofNat (UInt8.ofNat report.severity.ctorIdx).toNat = report.severity
    cases report.severity <;> rfl

/-- A sampler that fails is no sampler, but for the fault it is reported with. -/
theorem build_of_failed {sampler : HkSampler} (hfail : (sampler zeroSample).status ≠ .ok)
    (w : Watchdog) (late : UInt32) (buf : Buf) (len : UInt32) (k : Hk) (v : Svc) :
    (build w late buf len { k with sampler := some sampler } v).1 =
      (build w late buf len { k with sampler := none } v).1 := by
  by_cases hlen : frameBytes ≤ len
  · have hreading : reading { k with sampler := some sampler } = zeroSample := if_neg hfail
    rw [build_eq hlen, build_eq hlen, frameOf, hreading]
    rfl
  · rw [build, build, if_pos (UInt32.not_le.mp hlen), if_pos (UInt32.not_le.mp hlen)]

/-- Both frames have every field at the offset of the frame definition and their checksum last, what
stood in the buffer before makes no difference, and different samples or reports never make the same
bytes. -/
theorem frames_faithful :
    (∀ w late buf len k v, frameBytes ≤ len →
      WritesFrame frameBytes buf (build w late buf len k v).1 ∧
      HkFrame.read (build w late buf len k v).1.buf = frameOf w late k v ∧
      ∀ buf', (build w late buf' len k v).1.buf.bytes 0 frameBytes =
        (build w late buf len k v).1.buf.bytes 0 frameBytes) ∧
    (∀ (sampler : HkSampler), (sampler zeroSample).status ≠ .ok →
        ∀ w late buf len (k : Hk) v,
      (build w late buf len { k with sampler := some sampler } v).1 =
        (build w late buf len { k with sampler := none } v).1) ∧
    (∀ w w' late late' buf buf' len len' k k' v v', frameBytes ≤ len → frameBytes ≤ len' →
      (build w late buf len k v).1.buf.bytes 0 frameBytes =
        (build w' late' buf' len' k' v').1.buf.bytes 0 frameBytes → k.reading = k'.reading) ∧
    (∀ report buf len v, statusBytes ≤ len →
      WritesFrame statusBytes buf (statusBuild report buf len v).1 ∧
      StatusFrame.read (statusBuild report buf len v).1.buf = statusFrameOf report v ∧
      ∀ buf', (statusBuild report buf' len v).1.buf.bytes 0 statusBytes =
        (statusBuild report buf len v).1.buf.bytes 0 statusBytes) ∧
    ∀ report report' buf buf' len len' v v', statusBytes ≤ len → statusBytes ≤ len' →
      (statusBuild report buf len v).1.buf.bytes 0 statusBytes =
        (statusBuild report' buf' len' v').1.buf.bytes 0 statusBytes → report = report' := by
  refine ⟨?_, fun _ hfail => build_of_failed hfail, ?_, ?_, ?_⟩
  · intro w late buf len k v hlen
    have hframed := framed_build w late buf k v hlen
    refine ⟨hframed.toWritesFrame, HkFrame.read_of_laid (hframed.laid rfl), ?_⟩
    intro buf'
    exact (framed_build w late buf' k v hlen).bytes.trans hframed.bytes.symm
  · intro w w' late late' buf buf' len len' k k' v v' hlen hlen' h
    have hread := HkFrame.read_of_laid ((framed_build w late buf k v hlen).laid rfl)
    have hread' := HkFrame.read_of_laid ((framed_build w' late' buf' k' v' hlen').laid h)
    exact congrArg HkFrame.sample (hread.symm.trans hread')
  · intro report buf len v hlen
    have hframed := framed_statusBuild report buf v hlen
    refine ⟨hframed.toWritesFrame, StatusFrame.read_of_laid (hframed.laid rfl), ?_⟩
    intro buf'
    exact (framed_statusBuild report buf' v hlen).bytes.trans hframed.bytes.symm
  · intro report report' buf buf' len len' v v' hlen hlen' h
    have hread := StatusFrame.read_of_laid ((framed_statusBuild report buf v hlen).laid rfl)
    have hread' := StatusFrame.read_of_laid ((framed_statusBuild report' buf' v' hlen').laid h)
    have hsame := congrArg StatusFrame.report (hread.symm.trans hread')
    rwa [report_statusFrameOf, report_statusFrameOf] at hsame

end Hk

end QiranFirmware
