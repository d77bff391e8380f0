import Qstream.Protocol

/-! Constants, settings and timer arithmetic of the segment transfers. -/
namespace Qstream.Transfer

def SEGMENT_PACKET_SIZE : ℕ := 1400
def INITIAL_WINDOW : ℕ := 5
def MAX_WINDOW : ℕ := 64
def RETRY_LIMIT : ℕ := 8
def SENDER_RETRY_LIMIT : ℕ := 30
def COMPLETE_GRACE : ℕ := millis 4000
def MAX_CONCURRENT_TRANSFERS : ℕ := 32

/-- Packets sent per tick. -/
def SEND_CHUNK : ℕ := 8

/-- Tunables overridable via the environment. -/
structure Settings where
  paceMs : ℕ
  quietMs : ℕ
  firstTimeoutMs : ℕ
  deriving DecidableEq, Repr

def defaultSettings : Settings := ⟨1, 150, 4000⟩

def quietPeriod (cfg : Settings) : ℕ := millis cfg.quietMs

/-- Receiver quiet period adapted to the observed inter-packet gap. -/
def adaptiveQuiet (cfg : Settings) (gapEst : ℕ) (backoff : ℕ) : ℕ :=
  let base := max (quietPeriod cfg) (gapEst * 3 + millis 50)
  min (base * 2 ^ min backoff 4) (secs 8)

def ackTimeout (cfg : Settings) (count : ℕ) (rttEst : ℕ) : ℕ :=
  let base := max (count * cfg.paceMs + cfg.quietMs + 100) 300
  max (millis base) (rttEst * 2 + millis 150)

/-- Ack timeout for retry number `retries`, with capped exponential backoff. -/
def retryInterval (cfg : Settings) (count : ℕ) (rttEst : ℕ) (retries : ℕ) : ℕ :=
  min (ackTimeout cfg count rttEst * 2 ^ min retries 4) (secs 8)

/-- Number of packets for a file of `size` bytes. -/
def packetCount (size : ℕ) : ℕ :=
  min (max ((size + SEGMENT_PACKET_SIZE - 1) / SEGMENT_PACKET_SIZE) 1) 65535

theorem packetCount_pos (size : ℕ) : 1 ≤ packetCount size := by
  unfold packetCount
  exact le_min (le_max_right _ _) (by decide)

theorem packetCount_le (size : ℕ) : packetCount size ≤ 65535 := min_le_right _ _

theorem le_ceil_mul (size : ℕ) : size ≤ (size + 1400 - 1) / 1400 * 1400 := by omega

/-- A file no longer than the packet numbers can address is covered by its packets. -/
theorem le_packetCount_mul {size : ℕ} (h : size ≤ 65535 * SEGMENT_PACKET_SIZE) :
    size ≤ packetCount size * SEGMENT_PACKET_SIZE := by
  simp only [packetCount, SEGMENT_PACKET_SIZE] at *
  have hmax : (size + 1400 - 1) / 1400 ≤ 65535 := by omega
  rw [min_eq_left (max_le hmax (by decide))]
  exact (le_ceil_mul size).trans (Nat.mul_le_mul_right _ (le_max_left _ _))

/-- The last packet starts inside the file, or at its end when the file is empty. -/
theorem packetCount_sub_mul_le (size : ℕ) :
    (packetCount size - 1) * SEGMENT_PACKET_SIZE ≤ size := by
  simp only [packetCount, SEGMENT_PACKET_SIZE]
  have hfit : (max ((size + 1400 - 1) / 1400) 1 - 1) * 1400 ≤ size := by
    rcases le_total ((size + 1400 - 1) / 1400) 1 with h | h
    · rw [max_eq_right h]
      simp
    · rw [max_eq_left h]
      omega
  exact le_trans (Nat.mul_le_mul_right _ (Nat.sub_le_sub_right (min_le_left _ _) 1)) hfit

theorem retryInterval_pos (cfg : Settings) (count : ℕ) (rttEst : ℕ) (retries : ℕ) :
    0 < retryInterval cfg count rttEst retries := by
  have hbase : 0 < ackTimeout cfg count rttEst := by
    refine lt_of_lt_of_le ?_ (le_max_right _ _)
    exact Nat.add_pos_right _ (by decide)
  exact lt_min (Nat.mul_pos hbase (Nat.two_pow_pos _)) (by decide)

end Qstream.Transfer
