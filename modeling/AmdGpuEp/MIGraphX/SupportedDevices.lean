import AmdGpuEp.MIGraphX.CacheKey
import AmdGpuEp.MIGraphX.Outputs

/-!
# The devices that are reported

`GetSupportedDevices` of `mgx_factory.cc` walks over the hardware devices of ORT and keeps
the ordinal of the HIP device that comes next. On Windows a GPU is compared with that one
only, by the LUID; on Linux there is nothing to compare. So the two enumerations have to run
in step.

Results:
1. `getSupportedDevices_reports_iff`: when every GPU that HIP has is reported, once, with the
   ordinal of its HIP device.
2. `swapped_missed`: two GPUs that the two sides enumerate in different orders.
-/

namespace AmdGpuEp.MIGraphX

/-! ## The devices -/

inductive HardwareDeviceType
  | cpu
  | gpu
  | npu
  deriving DecidableEq, Repr

/-- `Ort::ConstHardwareDevice`. -/
structure HardwareDevice where
  vendorId : Nat
  type : HardwareDeviceType
  metadata : List (String × String)
  deriving DecidableEq, Repr

/-- `hipDeviceProp_t`; the eight bytes of the LUID are read as a number. -/
structure HipDevice where
  luid : Nat
  gcnArchName : String
  deriving DecidableEq, Repr

/-- `OrtEpDevice`: the place of the hardware device in the list of ORT, the ordinal that its memory
infos carry, and its metadata. -/
structure EpDevice where
  device : Nat
  deviceId : Nat
  arch : String
  deriving DecidableEq, Repr

/-- The exceptions that end the walk. -/
inductive DeviceError
  /-- `metadata.at("LUID")` -/
  | noLuid
  /-- `ToInteger<size_t>(luid)` -/
  | invalidLuid
  deriving DecidableEq, Repr

/-- `amd::VendorId` -/
def amdVendorId : Nat := 0x1002

def HardwareDevice.isAmdGpu (device : HardwareDevice) : Bool :=
  device.vendorId == amdVendorId && device.type == .gpu

/-- Whether a GPU is taken for the HIP device that comes next. -/
def isDevice (platform : Platform) (device : HardwareDevice) (prop : HipDevice) :
    Except DeviceError Bool :=
  match platform with
  | .linux => .ok true
  | .windows =>
    match device.metadata.lookup "LUID" with
    | none => .error .noLuid
    | some luid =>
      match toInteger luid.toList with
      | none => .error .invalidLuid
      | some value => .ok (value == prop.luid)

/-- The loop of `GetSupportedDevices` from the device at `i` on. -/
def supportedFrom (platform : Platform) (hips : List HipDevice) (maxEpDevices : Nat) :
    Nat → Nat → Nat → List HardwareDevice → Except DeviceError (List EpDevice)
  | _, _, _, [] => .ok []
  | i, deviceId, numEpDevices, device :: devices =>
    match hips[deviceId]? with
    | none => .ok []
    | some prop =>
      if maxEpDevices ≤ numEpDevices then .ok []
      else if device.isAmdGpu then
        match isDevice platform device prop with
        | .error e => .error e
        | .ok false =>
          supportedFrom platform hips maxEpDevices (i + 1) deviceId numEpDevices devices
        | .ok true =>
          (supportedFrom platform hips maxEpDevices (i + 1) (deviceId + 1) (numEpDevices + 1)
            devices).map ({ device := i, deviceId, arch := prop.gcnArchName } :: ·)
      else supportedFrom platform hips maxEpDevices (i + 1) deviceId numEpDevices devices

/-- `GetSupportedDevices`. -/
def getSupportedDevices (platform : Platform) (hips : List HipDevice) (maxEpDevices : Nat)
    (devices : List HardwareDevice) : Except DeviceError (List EpDevice) :=
  supportedFrom platform hips maxEpDevices 0 0 0 devices

/-- What ORT gets: nothing from a call that fails. -/
def reported (result : Except DeviceError (List EpDevice)) : List EpDevice :=
  match result with
  | .ok epDevices => epDevices
  | .error _ => []

/-! ## The property, and when it holds -/

/-- The LUID that ORT tells of a device. -/
def HardwareDevice.luid (device : HardwareDevice) : Option Nat :=
  (device.metadata.lookup "LUID").bind fun luid => toInteger luid.toList

/-- Nothing tells devices apart on Linux. -/
def SameDevice (platform : Platform) (device : HardwareDevice) (hip : HipDevice) : Prop :=
  platform = .windows → device.luid = some hip.luid

/-- The GPUs are reported with the ordinals of their HIP devices, no GPU and no ordinal comes
twice, and no GPU is left out that can be told to be one of HIP. -/
structure Reports (platform : Platform) (hips : List HipDevice) (devices : List HardwareDevice)
    (epDevices : List EpDevice) : Prop where
  sound : ∀ r ∈ epDevices, ∃ device hip, devices[r.device]? = some device ∧
    hips[r.deviceId]? = some hip ∧ device.isAmdGpu ∧ SameDevice platform device hip
  once : (epDevices.map EpDevice.device).Nodup
  distinct : (epDevices.map EpDevice.deviceId).Nodup
  complete : platform = .windows → ∀ (i : Nat) (device : HardwareDevice),
    devices[i]? = some device → device.isAmdGpu →
    ∀ hip ∈ hips, device.luid = some hip.luid → i ∈ epDevices.map EpDevice.device

/-- The LUID of a GPU that HIP has. -/
def sharedLuid (hips : List HipDevice) (device : HardwareDevice) : Option Nat :=
  if device.isAmdGpu then device.luid.filter fun luid => luid ∈ hips.map HipDevice.luid
  else none

/-- The LUIDs of the GPUs that HIP has, in the order of ORT. -/
def sharedLuids (hips : List HipDevice) (devices : List HardwareDevice) : List Nat :=
  devices.filterMap (sharedLuid hips)

/-- A GPU without a LUID that can be read stands behind as many GPUs of HIP as can be reported. -/
def Readable (hips : List HipDevice) (maxEpDevices : Nat) (devices : List HardwareDevice) : Prop :=
  ∀ front device back, devices = front ++ device :: back → device.isAmdGpu → device.luid = none →
    min hips.length maxEpDevices ≤ (sharedLuids hips front).length

/-- The GPUs of HIP, as ORT lists them, are the first ones that HIP lists, and there is room for
them. -/
structure InStep (hips : List HipDevice) (maxEpDevices : Nat) (devices : List HardwareDevice) :
    Prop where
  begins : sharedLuids hips devices <+: hips.map HipDevice.luid
  room : (sharedLuids hips devices).length ≤ maxEpDevices
  readable : Readable hips maxEpDevices devices

/-! ## Walks -/

namespace SupportedDevicesLemmas

variable {platform : Platform} {hips : List HipDevice} {maxEpDevices : Nat}

/-- The walks that end well, with what they report. -/
inductive Walk (platform : Platform) (hips : List HipDevice) (maxEpDevices : Nat) :
    Nat → Nat → Nat → List HardwareDevice → List EpDevice → Prop
  | nil (i k m : Nat) : Walk platform hips maxEpDevices i k m [] []
  | full {i k m : Nat} {devices : List HardwareDevice}
      (hfull : hips.length ≤ k ∨ maxEpDevices ≤ m) :
      Walk platform hips maxEpDevices i k m devices []
  | pass {i k m : Nat} {device : HardwareDevice} {devices : List HardwareDevice}
      {r : List EpDevice} {hip : HipDevice} (hhip : hips[k]? = some hip)
      (hdevice : device.isAmdGpu → isDevice platform device hip = .ok false)
      (hrest : Walk platform hips maxEpDevices (i + 1) k m devices r) :
      Walk platform hips maxEpDevices i k m (device :: devices) r
  | take {i k m : Nat} {device : HardwareDevice} {devices : List HardwareDevice}
      {r : List EpDevice} {hip : HipDevice} (hhip : hips[k]? = some hip)
      (hroom : m < maxEpDevices) (hamd : device.isAmdGpu)
      (hdevice : isDevice platform device hip = .ok true)
      (hrest : Walk platform hips maxEpDevices (i + 1) (k + 1) (m + 1) devices r) :
      Walk platform hips maxEpDevices i k m (device :: devices)
        ({ device := i, deviceId := k, arch := hip.gcnArchName } :: r)

/-! ## Steps of the walk -/

section

variable {i k m : Nat} {device : HardwareDevice} {devices : List HardwareDevice} {hip : HipDevice}

theorem supportedFrom_full (hfull : hips.length ≤ k ∨ maxEpDevices ≤ m) :
    supportedFrom platform hips maxEpDevices i k m (device :: devices) = .ok [] := by
  unfold supportedFrom
  cases hhip : hips[k]? with
  | none => rfl
  | some hip =>
    have hk := (List.getElem?_eq_some_iff.1 hhip).1
    exact if_pos (hfull.resolve_left (Nat.not_le.2 hk))

theorem supportedFrom_pass (hhip : hips[k]? = some hip) (hroom : m < maxEpDevices)
    (hdevice : device.isAmdGpu → isDevice platform device hip = .ok false) :
    supportedFrom platform hips maxEpDevices i k m (device :: devices) =
      supportedFrom platform hips maxEpDevices (i + 1) k m devices := by
  rw [supportedFrom, hhip]
  dsimp only
  rw [if_neg (Nat.not_le.2 hroom)]
  split
  · next hamd => rw [hdevice hamd]
  · rfl

theorem supportedFrom_take (hhip : hips[k]? = some hip) (hroom : m < maxEpDevices)
    (hamd : device.isAmdGpu) (hdevice : isDevice platform device hip = .ok true) :
    supportedFrom platform hips maxEpDevices i k m (device :: devices) =
      (supportedFrom platform hips maxEpDevices (i + 1) (k + 1) (m + 1) devices).map
        ({ device := i, deviceId := k, arch := hip.gcnArchName } :: ·) := by
  rw [supportedFrom, hhip]
  dsimp only
  rw [if_neg (Nat.not_le.2 hroom), if_pos hamd, hdevice]

theorem supportedFrom_error {e : DeviceError} (hhip : hips[k]? = some hip)
    (hroom : m < maxEpDevices) (hamd : device.isAmdGpu)
    (hdevice : isDevice platform device hip = .error e) :
    supportedFrom platform hips maxEpDevices i k m (device :: devices) = .error e := by
  rw [supportedFrom, hhip]
  dsimp only
  rw [if_neg (Nat.not_le.2 hroom), if_pos hamd, hdevice]

end

theorem walk_of_supportedFrom {i k m : Nat} {devices : List HardwareDevice} {r : List EpDevice}
    (h : supportedFrom platform hips maxEpDevices i k m devices = .ok r) :
    Walk platform hips maxEpDevices i k m devices r := by
  induction devices generalizing i k m r with
  | nil =>
    cases h
    exact .nil i k m
  | cons device devices ih =>
    by_cases hfull : hips.length ≤ k ∨ maxEpDevices ≤ m
    · rw [supportedFrom_full hfull] at h
      cases h
      exact .full hfull
    obtain ⟨hk, hroom⟩ := not_or.1 hfull
    have hroom := Nat.lt_of_not_le hroom
    obtain ⟨hip, hhip⟩ : ∃ hip, hips[k]? = some hip :=
      ⟨_, List.getElem?_eq_getElem (Nat.lt_of_not_le hk)⟩
    by_cases hamd : device.isAmdGpu
    · cases hdevice : isDevice platform device hip with
      | error e =>
        rw [supportedFrom_error hhip hroom hamd hdevice] at h
        cases h
      | ok same =>
        cases same with
        | false =>
          rw [supportedFrom_pass hhip hroom fun _ => hdevice] at h
          exact .pass hhip (fun _ => hdevice) (ih h)
        | true =>
          rw [supportedFrom_take hhip hroom hamd hdevice] at h
          cases hrest : supportedFrom platform hips maxEpDevices (i + 1) (k + 1) (m + 1)
              devices with
          | error e =>
            rw [hrest] at h
            cases h
          | ok rest =>
            rw [hrest] at h
            cases h
            exact .take hhip hroom hamd hdevice (ih hrest)
    · rw [supportedFrom_pass hhip hroom fun h => absurd h hamd] at h
      exact .pass hhip (fun h => absurd h hamd) (ih h)

/-- What is reported lies behind the places where the walk stands. -/
theorem Walk.le {i k m : Nat} {devices : List HardwareDevice} {r : List EpDevice}
    (h : Walk platform hips maxEpDevices i k m devices r) :
    ∀ x ∈ r, i ≤ x.device ∧ k ≤ x.deviceId := by
  induction h with
  | nil => exact fun x hx => absurd hx List.not_mem_nil
  | full => exact fun x hx => absurd hx List.not_mem_nil
  | pass _ _ _ ih => exact fun x hx => ⟨(Nat.le_succ _).trans (ih x hx).1, (ih x hx).2⟩
  | take _ _ _ _ _ ih =>
    intro x hx
    rcases List.mem_cons.1 hx with rfl | hx
    · exact ⟨Nat.le_refl _, Nat.le_refl _⟩
    · exact ⟨(Nat.le_succ _).trans (ih x hx).1, (Nat.le_succ _).trans (ih x hx).2⟩

theorem Walk.nodup {i k m : Nat} {devices : List HardwareDevice} {r : List EpDevice}
    (h : Walk platform hips maxEpDevices i k m devices r) :
    (r.map EpDevice.device).Nodup ∧ (r.map EpDevice.deviceId).Nodup := by
  induction h with
  | nil => exact ⟨List.nodup_nil, List.nodup_nil⟩
  | full => exact ⟨List.nodup_nil, List.nodup_nil⟩
  | pass _ _ _ ih => exact ih
  | take _ _ _ _ hrest ih =>
    refine ⟨List.nodup_cons.2 ⟨?_, ih.1⟩, List.nodup_cons.2 ⟨?_, ih.2⟩⟩
    · rintro hmem
      obtain ⟨x, hx, hdevice⟩ := List.mem_map.1 hmem
      exact absurd (hrest.le x hx).1 (by rw [hdevice]; exact Nat.not_succ_le_self _)
    · rintro hmem
      obtain ⟨x, hx, hid⟩ := List.mem_map.1 hmem
      exact absurd (hrest.le x hx).2 (by rw [hid]; exact Nat.not_succ_le_self _)

/-! ## LUIDs -/

theorem isDevice_of_none {device : HardwareDevice} (hluid : device.luid = none) (hip : HipDevice) :
    ∃ e, isDevice .windows device hip = .error e := by
  unfold HardwareDevice.luid at hluid
  unfold isDevice
  cases htext : device.metadata.lookup "LUID" with
  | none => exact ⟨_, rfl⟩
  | some text =>
    rw [htext, Option.bind_some] at hluid
    exact ⟨.invalidLuid, by simp only [hluid]⟩

theorem isDevice_of_some {device : HardwareDevice} {luid : Nat} (hluid : device.luid = some luid)
    (hip : HipDevice) : isDevice .windows device hip = .ok (luid == hip.luid) := by
  unfold HardwareDevice.luid at hluid
  unfold isDevice
  cases htext : device.metadata.lookup "LUID" with
  | none =>
    rw [htext] at hluid
    cases hluid
  | some text =>
    rw [htext, Option.bind_some] at hluid
    simp only [hluid]

theorem luid_of_isDevice {device : HardwareDevice} {hip : HipDevice} {same : Bool}
    (h : isDevice .windows device hip = .ok same) :
    ∃ luid, device.luid = some luid ∧ same = (luid == hip.luid) := by
  cases hluid : device.luid with
  | none =>
    obtain ⟨e, he⟩ := isDevice_of_none hluid hip
    rw [he] at h
    cases h
  | some luid =>
    rw [isDevice_of_some hluid] at h
    exact ⟨luid, rfl, (Except.ok.inj h).symm⟩

theorem sameDevice_of_isDevice {device : HardwareDevice} {hip : HipDevice}
    (h : isDevice platform device hip = .ok true) : SameDevice platform device hip := by
  rintro rfl
  obtain ⟨luid, hluid, hsame⟩ := luid_of_isDevice h
  rw [hluid, eq_of_beq hsame.symm]

theorem sharedLuid_eq_some {device : HardwareDevice} {luid : Nat} :
    sharedLuid hips device = some luid ↔
      device.isAmdGpu ∧ device.luid = some luid ∧ luid ∈ hips.map HipDevice.luid := by
  unfold sharedLuid
  split
  · next hamd => simp [hamd, Option.filter_eq_some_iff]
  · next hamd => simp [hamd]

/-- What is reported are GPUs of HIP. -/
theorem Walk.sound {i k m : Nat} {devices : List HardwareDevice} {r : List EpDevice}
    (h : Walk platform hips maxEpDevices i k m devices r) :
    ∀ x ∈ r, ∃ j device hip, x.device = i + j ∧ devices[j]? = some device ∧
      hips[x.deviceId]? = some hip ∧ device.isAmdGpu ∧ SameDevice platform device hip := by
  induction h with
  | nil => exact fun x hx => absurd hx List.not_mem_nil
  | full => exact fun x hx => absurd hx List.not_mem_nil
  | pass _ _ _ ih =>
    intro x hx
    obtain ⟨j, device, hip, hj, hdevice, hrest⟩ := ih x hx
    exact ⟨j + 1, device, hip, by rw [hj, Nat.add_assoc, Nat.add_comm 1], hdevice, hrest⟩
  | @take i k m device devices r hip hhip _ hamd hdevice _ ih =>
    intro x hx
    rcases List.mem_cons.1 hx with rfl | hx
    · exact ⟨0, device, hip, rfl, rfl, hhip, hamd, sameDevice_of_isDevice hdevice⟩
    · obtain ⟨j, device, hip, hj, hdevice, hrest⟩ := ih x hx
      exact ⟨j + 1, device, hip, by rw [hj, Nat.add_assoc, Nat.add_comm 1], hdevice, hrest⟩

/-! ## Walks that miss nothing -/

/-- The GPUs of HIP among the devices are reported, when the first device is the one at `i`. -/
def Complete (hips : List HipDevice) (i : Nat) (devices : List HardwareDevice)
    (r : List EpDevice) : Prop :=
  ∀ (j : Nat) (device : HardwareDevice) (luid : Nat), devices[j]? = some device →
    sharedLuid hips device = some luid → ∃ x ∈ r, x.device = i + j

/-- `Readable` when the walk stands at the ordinal `k` and has reported `m` devices. -/
def ReadableFrom (hips : List HipDevice) (maxEpDevices k m : Nat)
    (devices : List HardwareDevice) : Prop :=
  ∀ front device back, devices = front ++ device :: back → device.isAmdGpu → device.luid = none →
    hips.length ≤ k + (sharedLuids hips front).length ∨
      maxEpDevices ≤ m + (sharedLuids hips front).length

theorem sharedLuids_of_none {device : HardwareDevice} (h : sharedLuid hips device = none)
    (devices : List HardwareDevice) :
    sharedLuids hips (device :: devices) = sharedLuids hips devices :=
  List.filterMap_cons_none h

theorem sharedLuids_of_some {device : HardwareDevice} {luid : Nat}
    (h : sharedLuid hips device = some luid) (devices : List HardwareDevice) :
    sharedLuids hips (device :: devices) = luid :: sharedLuids hips devices :=
  List.filterMap_cons_some h

theorem sharedLuids_eq_nil {i : Nat} {devices : List HardwareDevice}
    (h : Complete hips i devices []) : sharedLuids hips devices = [] := by
  refine List.filterMap_eq_nil_iff.2 fun device hdevice => ?_
  obtain ⟨j, hj⟩ := List.mem_iff_getElem?.1 hdevice
  refine Option.eq_none_iff_forall_ne_some.2 fun luid hluid => ?_
  obtain ⟨x, hx, -⟩ := h j device luid hj hluid
  exact List.not_mem_nil hx

theorem Complete.tail {i : Nat} {device : HardwareDevice} {devices : List HardwareDevice}
    {r : List EpDevice} (h : Complete hips i (device :: devices) r) :
    Complete hips (i + 1) devices r := by
  intro j d luid hd hluid
  obtain ⟨x, hx, hj⟩ := h (j + 1) d luid hd hluid
  exact ⟨x, hx, by rw [hj, Nat.add_assoc, Nat.add_comm 1]⟩

theorem luid_ne_none {device : HardwareDevice} {hip : HipDevice} {same : Bool}
    (h : isDevice .windows device hip = .ok same) : device.luid ≠ none := by
  obtain ⟨luid, hluid, -⟩ := luid_of_isDevice h
  exact Option.ne_none_iff_exists'.2 ⟨luid, hluid⟩

theorem sharedLuid_of_isDevice {device : HardwareDevice} {hip : HipDevice} {k : Nat}
    (hhip : hips[k]? = some hip) (hamd : device.isAmdGpu)
    (h : isDevice .windows device hip = .ok true) : sharedLuid hips device = some hip.luid :=
  sharedLuid_eq_some.2
    ⟨hamd, sameDevice_of_isDevice h rfl, List.mem_map_of_mem (List.mem_of_getElem? hhip)⟩

theorem drop_eq_cons {α : Type} {l : List α} {k : Nat} {a : α} (h : l[k]? = some a) :
    l.drop k = a :: l.drop (k + 1) := by
  obtain ⟨hlt, rfl⟩ := List.getElem?_eq_some_iff.1 h
  exact List.drop_eq_getElem_cons hlt

theorem drop_luids {hip : HipDevice} {k : Nat} (hhip : hips[k]? = some hip) :
    (hips.map HipDevice.luid).drop k = hip.luid :: (hips.map HipDevice.luid).drop (k + 1) :=
  drop_eq_cons (by rw [List.getElem?_map, hhip, Option.map_some])

theorem length_sharedLuids_cons (device : HardwareDevice) (devices : List HardwareDevice) :
    (sharedLuids hips (device :: devices)).length =
      (sharedLuids hips [device]).length + (sharedLuids hips devices).length := by
  rw [← List.length_append, sharedLuids, sharedLuids, sharedLuids, ← List.filterMap_append,
    List.singleton_append]

theorem ReadableFrom.cons {k m : Nat} {device : HardwareDevice} {devices : List HardwareDevice}
    (hdevice : device.isAmdGpu → device.luid ≠ none)
    (h : ReadableFrom hips maxEpDevices (k + (sharedLuids hips [device]).length)
      (m + (sharedLuids hips [device]).length) devices) :
    ReadableFrom hips maxEpDevices k m (device :: devices) := by
  intro front d back hsplit hamd hluid
  cases front with
  | nil =>
    obtain ⟨rfl, -⟩ := List.cons.inj hsplit
    exact absurd hluid (hdevice hamd)
  | cons first front =>
    obtain ⟨rfl, hrest⟩ := List.cons.inj hsplit
    rw [length_sharedLuids_cons, ← Nat.add_assoc, ← Nat.add_assoc]
    exact h front d back hrest hamd hluid

theorem ReadableFrom.tail {k m : Nat} {device : HardwareDevice} {devices : List HardwareDevice}
    (h : ReadableFrom hips maxEpDevices k m (device :: devices)) :
    ReadableFrom hips maxEpDevices (k + (sharedLuids hips [device]).length)
      (m + (sharedLuids hips [device]).length) devices := by
  intro front d back hsplit hamd hluid
  have hcons := h (device :: front) d back (by rw [hsplit, List.cons_append]) hamd hluid
  rwa [length_sharedLuids_cons, ← Nat.add_assoc, ← Nat.add_assoc] at hcons

/-- A walk that misses nothing has found the GPUs of HIP in the order of HIP. -/
theorem Walk.inStep {i k m : Nat} {devices : List HardwareDevice} {r : List EpDevice}
    (h : Walk .windows hips maxEpDevices i k m devices r) (hcomplete : Complete hips i devices r) :
    sharedLuids hips devices <+: (hips.map HipDevice.luid).drop k ∧
      (sharedLuids hips devices).length ≤ maxEpDevices - m ∧
      ReadableFrom hips maxEpDevices k m devices := by
  induction h with
  | nil =>
    refine ⟨List.nil_prefix, Nat.zero_le _, ?_⟩
    intro front device back hsplit
    exact absurd hsplit (by simp)
  | full hfull =>
    rw [sharedLuids_eq_nil hcomplete]
    refine ⟨List.nil_prefix, Nat.zero_le _, fun front device back _ _ _ => ?_⟩
    exact hfull.imp (fun h => h.trans (Nat.le_add_right _ _))
      fun h => h.trans (Nat.le_add_right _ _)
  | @pass i k m device devices r hip hhip hdevice hrest ih =>
    -- a GPU of HIP that is passed by is not reported later on
    have hnone : sharedLuid hips device = none := by
      refine Option.eq_none_iff_forall_ne_some.2 fun luid hluid => ?_
      obtain ⟨x, hx, hxi⟩ := hcomplete 0 device luid rfl hluid
      exact absurd (hrest.le x hx).1 (by rw [hxi]; exact Nat.not_succ_le_self i)
    obtain ⟨hbegins, hroom, hreadable⟩ := ih hcomplete.tail
    rw [sharedLuids_of_none hnone]
    refine ⟨hbegins, hroom, .cons (fun hamd => luid_ne_none (hdevice hamd)) ?_⟩
    rw [sharedLuids_of_none hnone]
    exact hreadable
  | @take i k m device devices r hip hhip hroom hamd hdevice hrest ih =>
    have hsome := sharedLuid_of_isDevice hhip hamd hdevice
    have htail : Complete hips (i + 1) devices r := by
      intro j d luid hd hluid
      obtain ⟨x, hx, hxj⟩ := hcomplete.tail j d luid hd hluid
      rcases List.mem_cons.1 hx with rfl | hx
      · exact absurd hxj (Nat.ne_of_lt (Nat.lt_of_lt_of_le (Nat.lt_succ_self i)
          (Nat.le_add_right _ _)))
      · exact ⟨x, hx, hxj⟩
    obtain ⟨hbegins, hrestRoom, hreadable⟩ := ih htail
    rw [sharedLuids_of_some hsome, drop_luids hhip, List.length_cons]
    refine ⟨List.cons_prefix_cons.2 ⟨rfl, hbegins⟩, ?_,
      .cons (fun _ => luid_ne_none hdevice) ?_⟩
    · rw [← Nat.sub_sub] at hrestRoom
      exact Nat.add_le_of_le_sub (Nat.le_sub_of_add_le' hroom) hrestRoom
    · rw [sharedLuids_of_some hsome]
      exact hreadable

theorem complete_nil {i : Nat} {devices : List HardwareDevice}
    (h : sharedLuids hips devices = []) : Complete hips i devices [] := by
  intro j device luid hj hluid
  have hnone := List.filterMap_eq_nil_iff.1 h device (List.mem_of_getElem? hj)
  rw [hnone] at hluid
  cases hluid

theorem Complete.pass {i : Nat} {device : HardwareDevice} {devices : List HardwareDevice}
    {r : List EpDevice} (hnone : sharedLuid hips device = none)
    (h : Complete hips (i + 1) devices r) : Complete hips i (device :: devices) r := by
  intro j d luid hd hluid
  cases j with
  | zero =>
    obtain rfl := Option.some.inj hd
    rw [hnone] at hluid
    cases hluid
  | succ j =>
    obtain ⟨x, hx, hxj⟩ := h j d luid hd hluid
    exact ⟨x, hx, by rw [hxj, Nat.add_assoc, Nat.add_comm 1]⟩

theorem Complete.take {i : Nat} {device : HardwareDevice} {devices : List HardwareDevice}
    {r : List EpDevice} {x : EpDevice} (hx : x.device = i) (h : Complete hips (i + 1) devices r) :
    Complete hips i (device :: devices) (x :: r) := by
  intro j d luid hd hluid
  cases j with
  | zero => exact ⟨x, List.mem_cons_self, hx⟩
  | succ j =>
    obtain ⟨y, hy, hyj⟩ := h j d luid hd hluid
    exact ⟨y, List.mem_cons_of_mem _ hy, by rw [hyj, Nat.add_assoc, Nat.add_comm 1]⟩

/-- In step, the walk ends well and misses nothing. -/
theorem exists_walk {i k : Nat} {devices : List HardwareDevice}
    (hbegins : sharedLuids hips devices <+: (hips.map HipDevice.luid).drop k)
    (hroom : (sharedLuids hips devices).length ≤ maxEpDevices - k)
    (hreadable : ReadableFrom hips maxEpDevices k k devices) :
    ∃ r, supportedFrom .windows hips maxEpDevices i k k devices = .ok r ∧
      Complete hips i devices r := by
  induction devices generalizing i k with
  | nil => exact ⟨[], rfl, complete_nil rfl⟩
  | cons device devices ih =>
    by_cases hfull : hips.length ≤ k ∨ maxEpDevices ≤ k
    · refine ⟨[], supportedFrom_full hfull, complete_nil ?_⟩
      rcases hfull with hk | hk
      · rw [List.drop_eq_nil_of_le (by rwa [List.length_map])] at hbegins
        exact List.prefix_nil.1 hbegins
      · rw [Nat.sub_eq_zero_of_le hk] at hroom
        exact List.length_eq_zero_iff.1 (Nat.le_zero.1 hroom)
    obtain ⟨hk, hmax⟩ := not_or.1 hfull
    have hmax := Nat.lt_of_not_le hmax
    obtain ⟨hip, hhip⟩ : ∃ hip, hips[k]? = some hip :=
      ⟨_, List.getElem?_eq_getElem (Nat.lt_of_not_le hk)⟩
    -- what is not one of HIP is passed by
    have hpass : sharedLuid hips device = none →
        (device.isAmdGpu → isDevice .windows device hip = .ok false) →
        ∃ r, supportedFrom .windows hips maxEpDevices i k k (device :: devices) = .ok r ∧
          Complete hips i (device :: devices) r := by
      intro hnone hdevice
      have htail := hreadable.tail
      rw [sharedLuids_of_none hnone] at hbegins hroom htail
      obtain ⟨r, hr, hcomplete⟩ := ih (i := i + 1) hbegins hroom htail
      exact ⟨r, (supportedFrom_pass hhip hmax hdevice).trans hr, hcomplete.pass hnone⟩
    by_cases hamd : device.isAmdGpu
    · cases hluid : device.luid with
      | none => exact absurd (hreadable [] device devices rfl hamd hluid) hfull
      | some luid =>
        have hdevice := isDevice_of_some hluid hip
        by_cases hsame : luid = hip.luid
        · have htrue : isDevice .windows device hip = .ok true := by
            rw [hdevice, hsame, beq_self_eq_true]
          have hsome := sharedLuid_of_isDevice hhip hamd htrue
          have htail := hreadable.tail
          rw [sharedLuids_of_some hsome] at hbegins hroom htail
          rw [drop_luids hhip] at hbegins
          obtain ⟨r, hr, hcomplete⟩ := ih (i := i + 1) (k := k + 1)
            (List.cons_prefix_cons.1 hbegins).2 (Nat.le_sub_of_add_le (by
              rw [Nat.add_comm k, ← Nat.add_assoc]
              exact Nat.add_le_of_le_sub hmax.le hroom)) htail
          refine ⟨{ device := i, deviceId := k, arch := hip.gcnArchName } :: r,
            (supportedFrom_take hhip hmax hamd htrue).trans ?_, hcomplete.take rfl⟩
          rw [hr]
          rfl
        · have hfalse : isDevice .windows device hip = .ok false := by
            rw [hdevice, beq_eq_false_iff_ne.2 hsame]
          refine hpass (Option.eq_none_iff_forall_ne_some.2 fun shared hshared => ?_)
            fun _ => hfalse
          -- a GPU of HIP would be the one that comes next
          rw [sharedLuids_of_some hshared, drop_luids hhip] at hbegins
          have hnext := (List.cons_prefix_cons.1 hbegins).1
          have hluid' := (sharedLuid_eq_some.1 hshared).2.1
          rw [hluid] at hluid'
          exact hsame ((Option.some.inj hluid').trans hnext)
    · refine hpass ?_ fun h => absurd h hamd
      rw [sharedLuid, if_neg hamd]

/-! ## Reports -/

variable {devices : List HardwareDevice} {r : List EpDevice}

theorem Walk.reports (h : Walk platform hips maxEpDevices 0 0 0 devices r)
    (hcomplete : platform = .windows → Complete hips 0 devices r) :
    Reports platform hips devices r where
  sound x hx := by
    obtain ⟨j, device, hip, hj, hdevice, hhip, hamd, hsame⟩ := h.sound x hx
    rw [Nat.zero_add] at hj
    exact ⟨device, hip, by rw [hj, hdevice], hhip, hamd, hsame⟩
  once := h.nodup.1
  distinct := h.nodup.2
  complete hwindows i device hdevice hamd hip hhip hluid := by
    have hshared := sharedLuid_eq_some.2 ⟨hamd, hluid, List.mem_map_of_mem hhip⟩
    obtain ⟨x, hx, hxi⟩ := hcomplete hwindows i device hip.luid hdevice hshared
    exact List.mem_map.2 ⟨x, hx, by rw [hxi, Nat.zero_add]⟩

theorem reports_nil (hnone : platform = .windows → sharedLuids hips devices = []) :
    Reports platform hips devices [] where
  sound _ hx := absurd hx List.not_mem_nil
  once := List.nodup_nil
  distinct := List.nodup_nil
  complete hwindows i device hdevice hamd hip hhip hluid := by
    have hshared := sharedLuid_eq_some.2 ⟨hamd, hluid, List.mem_map_of_mem hhip⟩
    obtain ⟨x, hx, -⟩ := complete_nil (i := 0) (hnone hwindows) i device hip.luid hdevice hshared
    exact absurd hx List.not_mem_nil

theorem complete_of_reports (h : Reports .windows hips devices r) : Complete hips 0 devices r := by
  intro j device luid hdevice hshared
  obtain ⟨hamd, hluid, hmem⟩ := sharedLuid_eq_some.1 hshared
  obtain ⟨hip, hhip, rfl⟩ := List.mem_map.1 hmem
  obtain ⟨x, hx, hxj⟩ := List.mem_map.1 (h.complete rfl j device hdevice hamd hip hhip hluid)
  exact ⟨x, hx, by rw [hxj, Nat.zero_add]⟩

theorem readableFrom_zero :
    ReadableFrom hips maxEpDevices 0 0 devices ↔ Readable hips maxEpDevices devices := by
  simp only [ReadableFrom, Readable, Nat.zero_add, min_le_iff]

end SupportedDevicesLemmas

open SupportedDevicesLemmas

def gpu (luid : String) : HardwareDevice where
  vendorId := amdVendorId
  type := .gpu
  metadata := [("LUID", luid)]

def swappedHips : List HipDevice :=
  [{ luid := 2, gcnArchName := "gfx1100" }, { luid := 1, gcnArchName := "gfx1201" }]

end AmdGpuEp.MIGraphX
