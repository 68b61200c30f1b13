import LeadSheet.Midi.Message

/-!
# The bytes of messages

A status byte holds the kind of a message in its high four bits and a channel in its low four bits.
The bytes behind it hold seven bits each, so that none of them is taken for a status byte.
-/

namespace LeadSheet.Midi

/-! ## Status bytes -/

section

variable {kind : Nat}

theorem toNat_status (hkind : kind ≤ 0xF0) (channel : Int) :
    (status kind channel).toNat = kind + (channel % 16).toNat :=
  UInt8.toNat_ofNat_of_lt' (by rw [UInt8.size]; omega)

theorem status_emod (kind : Nat) (channel : Int) :
    status kind (channel % 16) = status kind channel := by
  rw [status, status, Int.emod_emod_of_dvd channel (Int.dvd_refl 16)]

theorem status_eq {channel : Nat} (hc : channel < 16) :
    status kind channel = UInt8.ofNat (kind + channel) := by
  have : ((channel : Int) % 16).toNat = channel := by omega
  rw [status, this]

theorem status_kind (hlow : kind % 16 = 0) (hhigh : kind ≤ 0xF0) (channel : Int) :
    (status kind channel).toNat / 16 = kind / 16 := by
  rw [toNat_status hhigh]
  omega

end

/-! ## Values -/

theorem toNat_dataByte (value : Int) : ((dataByte value).toNat : Int) = value % 128 := by
  rw [dataByte, UInt8.toNat_ofNat_of_lt' (by rw [UInt8.size]; omega)]
  omega

theorem dataByte_lt (value : Int) : dataByte value < 0x80 := by
  have := toNat_dataByte value
  have hbound : (0x80 : UInt8).toNat = 128 := rfl
  rw [UInt8.lt_iff_toNat_lt, hbound]
  omega

/-- A value of seven bits is kept as it is. -/
theorem dataByte_toNat {n : Int} (h : 0 ≤ n) (h' : n ≤ 127) : ((dataByte n).toNat : Int) = n := by
  rw [toNat_dataByte, Int.emod_eq_of_lt h (by omega)]

section

variable {α : Type} [Scalar α] (level : α)

theorem sevenBit_nonneg : 0 ≤ Scalar.sevenBit level := Int.le_max_left ..

theorem sevenBit_le : Scalar.sevenBit level ≤ 127 := by
  unfold Scalar.sevenBit
  omega

/-- A level is written as it is. -/
theorem toNat_dataByte_sevenBit :
    ((dataByte (Scalar.sevenBit level)).toNat : Int) = Scalar.sevenBit level :=
  dataByte_toNat (sevenBit_nonneg level) (sevenBit_le level)

end

/-! ## Messages of channels -/

/-- A message of a channel: a status byte, and values of seven bits. -/
def IsChannelMessage (message : List UInt8) : Prop :=
  ∃ status data, message = status :: data ∧ 0x80 ≤ status ∧ status < 0xF0 ∧
    ∀ byte ∈ data, byte < 0x80

/-- Whether a message starts a note or ends one. -/
def isNote : List UInt8 → Bool
  | [] => false
  | status :: _ => 0x80 ≤ status && status < 0xA0

section

variable {kind : Nat} (channel : Int) (data : List UInt8)

theorem isChannelMessage_status (hlow : 0x80 ≤ kind) (hhigh : kind ≤ 0xE0)
    (hdata : ∀ byte ∈ data, byte < 0x80) : IsChannelMessage (status kind channel :: data) := by
  have hstatus := toNat_status (show kind ≤ 0xF0 by omega) channel
  have hfirst : (0x80 : UInt8).toNat = 0x80 := rfl
  have hlast : (0xF0 : UInt8).toNat = 0xF0 := rfl
  refine ⟨_, data, rfl, ?_, ?_, hdata⟩
  · rw [UInt8.le_iff_toNat_le]
    omega
  · rw [UInt8.lt_iff_toNat_lt]
    omega

theorem isNote_status (hlow : 0x80 ≤ kind) (hsixteen : kind % 16 = 0) (hhigh : kind ≤ 0xE0) :
    isNote (status kind channel :: data) = decide (kind < 0xA0) := by
  have hstatus := toNat_status (show kind ≤ 0xF0 by omega) channel
  have hfirst : (0x80 : UInt8).toNat = 0x80 := rfl
  have hlast : (0xA0 : UInt8).toNat = 0xA0 := rfl
  rw [isNote, ← Bool.decide_and]
  refine decide_eq_decide.mpr ?_
  rw [UInt8.le_iff_toNat_le, UInt8.lt_iff_toNat_lt]
  omega

variable (note velocity controller value program : Int)

theorem isChannelMessage_noteOn : IsChannelMessage (noteOn channel note velocity) :=
  isChannelMessage_status _ _ (by omega) (by omega) (by simp [dataByte_lt])

theorem isChannelMessage_noteOff : IsChannelMessage (noteOff channel note velocity) :=
  isChannelMessage_status _ _ (by omega) (by omega) (by simp [dataByte_lt])

theorem isChannelMessage_controlChange :
    IsChannelMessage (controlChange channel controller value) :=
  isChannelMessage_status _ _ (by omega) (by omega) (by simp [dataByte_lt])

theorem isChannelMessage_programChange : IsChannelMessage (programChange channel program) :=
  isChannelMessage_status _ _ (by omega) (by omega) (by simp [dataByte_lt])

theorem isNote_noteOn : isNote (noteOn channel note velocity) = true :=
  isNote_status _ _ (by omega) (by omega) (by omega)

theorem isNote_noteOff : isNote (noteOff channel note velocity) = true :=
  isNote_status _ _ (by omega) (by omega) (by omega)

theorem isNote_controlChange : isNote (controlChange channel controller value) = false :=
  isNote_status _ _ (by omega) (by omega) (by omega)

theorem isNote_programChange : isNote (programChange channel program) = false :=
  isNote_status _ _ (by omega) (by omega) (by omega)

end

end LeadSheet.Midi
