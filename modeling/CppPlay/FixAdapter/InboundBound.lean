import CppPlay.FixAdapter.TsReader

/-!
# Where the reader lets the socket write

`loadMsg` hands two parts of the pooled buffer to the socket.  The second one is as
long as the header says, and the capacity of the buffer is not looked at.
-/

namespace CppPlay.FixAdapter

open CppPlay.Lib

/-- `TsConnector::Buffer_1T(buff->get_buf() + start, size)`. -/
structure Region where
  start : ℕ
  size : ℕ

def Region.Within (r : Region) (maxDataSize : ℕ) : Prop := r.start + r.size ≤ maxDataSize

variable (api : Espd)

def hdrRegion : Region := ⟨0, sizeofMsgHeader⟩

def bodyRegion (header : List Byte) : Region := ⟨sizeofMsgHeader, announcedLength api header⟩

/-- The header of the next message, once `receive_from_ts` has it. -/
def receivedHeader (s : Inbound) : Option (List Byte) :=
  match receiveFromTs hdrRegion.size s with
  | .done header _ => some header.bytes
  | .threw _ => none
  | .waiting => none

/-- What `loadMsg` gives to `receive_from_ts`, in its order. -/
def loadRegions (s : Inbound) : List Region :=
  hdrRegion :: ((receivedHeader s).map (bodyRegion api)).toList

variable {api}

theorem receiveFrom_length {n conn : ℕ} {stream : List Byte} {pos : ℕ}
    {later : List (Option (List Byte))} {chunk : Chunk} {s : Inbound}
    (hdone : receiveFrom n conn stream pos later = .done chunk s) : chunk.bytes.length = n := by
  induction later generalizing conn stream pos with
  | nil =>
      by_cases henough : pos + n ≤ stream.length
      · rw [receiveFrom_of_le henough, Received.done.injEq] at hdone
        rw [← hdone.1, List.length_take, List.length_drop]
        omega
      · rw [receiveFrom_of_lt (not_le.mp henough)] at hdone
        exact absurd hdone (by simp)
  | cons outcome later ih =>
      by_cases henough : pos + n ≤ stream.length
      · rw [receiveFrom_of_le henough, Received.done.injEq] at hdone
        rw [← hdone.1, List.length_take, List.length_drop]
        omega
      · rw [receiveFrom_of_lt (not_le.mp henough)] at hdone
        cases outcome with
        | none => exact absurd hdone (by simp)
        | some next => exact ih hdone

theorem loadRegions_of_loaded {s s' : Inbound} {msg : LoadedMsg}
    (hload : loadMsg api s = .loaded msg s') :
    loadRegions api s = [⟨0, msg.header.bytes.length⟩,
      ⟨msg.header.bytes.length, msg.body.bytes.length⟩] := by
  rw [loadMsg] at hload
  cases hfirst : receiveFromTs sizeofMsgHeader s with
  | waiting => simp [hfirst] at hload
  | threw after => simp [hfirst] at hload
  | done header after =>
      simp only [hfirst] at hload
      cases hsecond : receiveFromTs (announcedLength api header.bytes) after with
      | waiting => simp [hsecond] at hload
      | threw last => simp [hsecond] at hload
      | done body last =>
          simp only [hsecond, LoadResult.loaded.injEq] at hload
          have hreceived : receivedHeader s = some header.bytes := by
            rw [receivedHeader, hdrRegion, hfirst]
          rw [loadRegions, hreceived, ← hload.1, receiveFrom_length hfirst,
            receiveFrom_length hsecond]
          rfl

theorem announcedLength_le (header : List Byte) : announcedLength api header ≤ 65535 := by
  have hlt := (api.uespd16.load ((header.drop 13).take 2)).toNat_lt
  rw [announcedLength]
  omega

theorem loadRegions_within_iff {m : ℕ} (hm : sizeofMsgHeader ≤ m) (s : Inbound) :
    (∀ r ∈ loadRegions api s, r.Within m) ↔
      ∀ header, receivedHeader s = some header →
        announcedLength api header ≤ m - sizeofMsgHeader := by
  have hhdr : hdrRegion.Within m := by
    rw [Region.Within, hdrRegion, Nat.zero_add]
    exact hm
  rw [loadRegions, List.forall_mem_cons]
  cases hreceived : receivedHeader s with
  | none => simp [hhdr]
  | some header =>
      have hbody : (bodyRegion api header).Within m ↔
          announcedLength api header ≤ m - sizeofMsgHeader := by
        exact (Nat.le_sub_iff_add_le' hm).symm
      simp [hhdr, hbody]

variable (api) in
def longestHeader : List Byte := List.replicate 13 0 ++ api.uespd16.store 65535

theorem receivedHeader_longest :
    receivedHeader ⟨0, longestHeader api, 0, []⟩ = some (longestHeader api) := by
  have hlength : (longestHeader api).length = sizeofMsgHeader := by
    rw [longestHeader, List.length_append, List.length_replicate, api.uespd16.length_store]
    rfl
  have hwhole : (longestHeader api).take hdrRegion.size = longestHeader api :=
    List.take_of_length_le (le_of_eq hlength)
  have henough : 0 + hdrRegion.size ≤ (longestHeader api).length := by
    rw [hlength, Nat.zero_add]
    rfl
  rw [receivedHeader, receiveFromTs, receiveFrom_of_le henough, List.drop_zero, hwhole]

theorem announcedLength_longest : announcedLength api (longestHeader api) = 65535 := by
  have hbytes : ((longestHeader api).drop 13).take 2 = api.uespd16.store 65535 := by
    rw [longestHeader, List.drop_left' (List.length_replicate ..),
      List.take_of_length_le (le_of_eq (api.uespd16.length_store 65535))]
  rw [announcedLength, hbytes, api.uespd16.load_store]
  rfl

/-- The socket stays inside the first `m` bytes exactly when the header that was received
announces no more than the rest of them, which no capacity below that of the longest
message makes sure. -/
theorem inbound_within_iff (api : Espd) (m : ℕ) (hm : sizeofMsgHeader ≤ m) :
    (∀ s, (∀ r ∈ loadRegions api s, r.Within m) ↔
      ∀ header, receivedHeader s = some header →
        announcedLength api header ≤ m - sizeofMsgHeader) ∧
    ((∀ s, ∀ r ∈ loadRegions api s, r.Within m) ↔ sizeofMsgHeader + 65535 ≤ m) := by
  constructor
  · exact loadRegions_within_iff hm
  · constructor
    · intro hall
      have hlongest := (loadRegions_within_iff hm _).mp (hall ⟨0, longestHeader api, 0, []⟩)
        _ receivedHeader_longest
      rw [announcedLength_longest] at hlongest
      exact (Nat.le_sub_iff_add_le' hm).mp hlongest
    · intro hlarge s
      rw [loadRegions_within_iff hm]
      intro header _
      exact (announcedLength_le header).trans ((Nat.le_sub_iff_add_le' hm).mpr hlarge)

theorem inbound_within_iff_page :
    (∀ s, (∀ r ∈ loadRegions NetworkOrder.espd s, r.Within 4096) ↔
      ∀ header, receivedHeader s = some header →
        announcedLength NetworkOrder.espd header ≤ 4096 - sizeofMsgHeader) ∧
    ((∀ s, ∀ r ∈ loadRegions NetworkOrder.espd s, r.Within 4096) ↔
      sizeofMsgHeader + 65535 ≤ 4096) :=
  inbound_within_iff NetworkOrder.espd 4096 (by decide)

def headerOfFiveThousand : List Byte := [0, 17, 0, 1, 0, 0, 0, 1, 0, 3, 0, 0, 1, 19, 136]

/-- A buffer of 4096 bytes and a header that announces 5000. -/
theorem not_within_page :
    ¬ ∀ r ∈ loadRegions NetworkOrder.espd ⟨0, headerOfFiveThousand, 0, []⟩, r.Within 4096 := by
  intro hwithin
  have hbody : bodyRegion NetworkOrder.espd headerOfFiveThousand ∈
      loadRegions NetworkOrder.espd ⟨0, headerOfFiveThousand, 0, []⟩ :=
    List.mem_cons_of_mem _ (List.mem_singleton_self _)
  have hfits := hwithin _ hbody
  unfold Region.Within at hfits
  exact absurd hfits (by decide)

end CppPlay.FixAdapter
