import OpenHarmonyMac.Infra.CString
import OpenHarmonyMac.Tools.Maps

/-!
# The messages of the tool for the kernel log

`kmsg` of `dump_wchan` formats a message into a buffer of 512 bytes and writes as many bytes of it
as `vsnprintf` returns, which is the length of the whole message.

* `Message` — the messages of the tool, with what their buffers can hold
* `kmsg` — what is written
* `kmsg_writesStored_iff` — when it is in the buffer
-/

namespace Kmsg

open Infra Maps

/-- The string in a buffer with room for `n` characters and the NUL. -/
abbrev Field (n : Nat) := { s : Text // s.length ≤ n }

/-- `%lx` -/
def formatHex (n : Nat) : Text := Nat.toDigits 16 n

/-- `probes` -/
def probes : Fin 6 → Text
  | 0 => "/data/devhost_probe_composer_host".toList
  | 1 => "/data/devhost_probe_wifi_host".toList
  | 2 => "/data/devhost_probe_power_host".toList
  | 3 => "/dev/devhost_probe_composer_host".toList
  | 4 => "/tmp/devhost_probe_composer_host".toList
  | 5 => "/vendor/devhost_probe_composer_host".toList

/-- The calls of `kmsg`. -/
inductive Message where
  | ptrace (tpid : BitVec 32) (pc lr sp : BitVec 64)
  | probe (pi : Fin 6) (pb : Field 1023)
  | maps (dName : Field 255) (mp : Field 1023)
  | fds (dName : Field 255) (fdlist : Field 1023)
  | mem (mt : Field 255)
  | task (dName teName : Field 255) (w2 : Field 63) (cmd exe : Field 127) (sc : Field 255)
  | wchanDone

/-- The message as it is formatted. -/
def Message.text : Message → Text
  | .ptrace tpid pc lr sp => "PTRACE: pid=".toList ++ formatInt tpid.toInt ++ " pc=".toList ++
      formatHex pc.toNat ++ " lr=".toList ++ formatHex lr.toNat ++ " sp=".toList ++
      formatHex sp.toNat
  | .probe pi pb => "PROBE: ".toList ++ probes pi ++ " -> ".toList ++ pb.1
  | .maps dName mp => "MAPS: pid=".toList ++ dName.1 ++ " ".toList ++ mp.1
  | .fds dName fdlist => "FDS: pid=".toList ++ dName.1 ++ " ".toList ++ fdlist.1
  | .mem mt => mt.1
  | .task dName teName w2 cmd exe sc => "TASK: pid=".toList ++ dName.1 ++ " tid=".toList ++
      teName.1 ++ " wchan=".toList ++ w2.1 ++ " cmd=".toList ++ cmd.1 ++ " exe=".toList ++ exe.1 ++
      " syscall=".toList ++ sc.1
  | .wchanDone => "WCHAN: done".toList

/-- `vsnprintf` into a buffer of `size` bytes: what it returns, and what it stores. -/
def vsnprintf (size : Nat) (fails : Bool) (text : Text) : Int × Text :=
  if fails then (-1, []) else (text.length, text.take (size - 1))

/-- A call of `write`, of that many bytes of the buffer or of the newline. -/
inductive Write where
  | buf (count : Nat)
  | newline
  deriving DecidableEq, Repr

/-- `kmsg`. The third argument of `write` is a `size_t`. -/
def kmsg (opened fails : Bool) (m : Message) : List Write :=
  if opened then [.buf (((vsnprintf 512 fails m.text).1 % 2 ^ 64).toNat), .newline] else []

/-- Only what was stored is written, and nothing where formatting fails. -/
structure WritesStored (opened fails : Bool) (m : Message) : Prop where
  stored : ∀ count, .buf count ∈ kmsg opened fails m →
    count ≤ (vsnprintf 512 fails m.text).2.length
  silent : fails = true → kmsg opened fails m = []

/-- The message fits: what its buffers hold leaves room for the rest of it. -/
def Message.Short : Message → Prop
  | .ptrace .. | .mem _ | .wchanDone => True
  | .probe pi pb => (probes pi).length + pb.1.length ≤ 500
  | .maps dName mp => dName.1.length + mp.1.length ≤ 500
  | .fds dName fdlist => dName.1.length + fdlist.1.length ≤ 501
  | .task dName teName w2 cmd exe sc => dName.1.length + teName.1.length + w2.1.length +
      cmd.1.length + exe.1.length + sc.1.length ≤ 470

section Length

theorem length_formatHex_le (x : BitVec 64) : (formatHex x.toNat).length ≤ 16 :=
  (Nat.length_toDigits_le_iff (by decide) (by decide)).mpr x.isLt

theorem length_formatInt_le (x : BitVec 32) : (formatInt x.toInt).length ≤ 11 := by
  have hlo := BitVec.le_toInt x
  have hhi := BitVec.toInt_lt (x := x)
  have hdigits : (formatNat x.toInt.natAbs).length ≤ 10 :=
    length_formatNat_le (by decide) (by omega)
  unfold formatInt
  split
  · rw [List.length_cons]
    omega
  · omega

theorem length_probes_le (pi : Fin 6) : (probes pi).length ≤ 36 := by
  unfold probes
  split <;> simp

/-- The message fits into the buffer where its fields are short. -/
theorem length_text_le_iff (m : Message) : m.text.length ≤ 511 ↔ m.Short := by
  unfold Message.text Message.Short
  cases m with
  | ptrace tpid pc lr sp =>
    have htpid := length_formatInt_le tpid
    have hpc := length_formatHex_le pc
    have hlr := length_formatHex_le lr
    have hsp := length_formatHex_le sp
    simp +arith
    omega
  | probe pi pb => simp +arith
  | maps dName mp => simp +arith
  | fds dName fdlist => simp +arith
  | mem mt =>
    have hmt := mt.2
    simp only [iff_true]
    omega
  | task dName teName w2 cmd exe sc => simp +arith
  | wchanDone => simp

theorem length_text_lt_of_short {m : Message} (h : m.Short) : m.text.length < 2 ^ 64 :=
  Nat.lt_of_le_of_lt ((length_text_le_iff m).mpr h) (by decide)

/-- No message is longer than its buffers and its literals together. -/
theorem length_text_lt (m : Message) : m.text.length < 2 ^ 64 := by
  cases m with
  | ptrace tpid pc lr sp => exact length_text_lt_of_short trivial
  | mem mt => exact length_text_lt_of_short trivial
  | wchanDone => exact length_text_lt_of_short trivial
  | probe pi pb =>
    have hpi := length_probes_le pi
    have hpb := pb.2
    unfold Message.text
    simp +arith
    omega
  | maps dName mp =>
    have hname := dName.2
    have hmp := mp.2
    unfold Message.text
    simp +arith
    omega
  | fds dName fdlist =>
    have hname := dName.2
    have hfdlist := fdlist.2
    unfold Message.text
    simp +arith
    omega
  | task dName teName w2 cmd exe sc =>
    have hname := dName.2
    have hte := teName.2
    have hw2 := w2.2
    have hcmd := cmd.2
    have hexe := exe.2
    have hsc := sc.2
    unfold Message.text
    simp +arith
    omega

end Length

/-- The whole length of the message is written. -/
theorem kmsg_formatted (m : Message) : kmsg true false m = [.buf m.text.length, .newline] := by
  have hcount : ((vsnprintf 512 false m.text).1 % 2 ^ 64).toNat = m.text.length := by
    have hlt := length_text_lt m
    simp only [vsnprintf, Bool.false_eq_true, if_false]
    omega
  rw [kmsg, if_pos rfl, hcount]

/-- What is written was stored exactly when the log cannot be opened, or when the message was
formatted and fits into the buffer. -/
theorem kmsg_writesStored_iff (opened fails : Bool) (m : Message) :
    WritesStored opened fails m ↔ opened = false ∨ (fails = false ∧ m.Short) := by
  rw [← length_text_le_iff]
  cases opened with
  | false =>
    have hnone : kmsg false fails m = [] := rfl
    refine iff_of_true ⟨fun count hmem => ?_, fun _ => hnone⟩ (.inl rfl)
    rw [hnone] at hmem
    cases hmem
  | true =>
    cases fails with
    | true =>
      have hwrites : kmsg true true m ≠ [] := by simp [kmsg]
      exact iff_of_false (fun h => hwrites (h.silent rfl)) (by simp)
    | false =>
      have hstored : (vsnprintf 512 false m.text).2.length = min 511 m.text.length := by
        simp [vsnprintf]
      constructor
      · intro h
        have hle := h.stored m.text.length (kmsg_formatted m ▸ List.mem_cons_self)
        exact .inr ⟨rfl, by omega⟩
      · rintro (h | ⟨-, hshort⟩)
        · cases h
        · refine ⟨fun count hmem => ?_, fun h => nomatch h⟩
          rw [kmsg_formatted] at hmem
          have heq : count = m.text.length := by simpa using hmem
          omega

theorem text_maps (dName : Field 255) (mp : Field 1023) :
    (Message.maps dName mp).text = "MAPS: pid=".toList ++ dName.1 ++ " ".toList ++ mp.1 := by
  rfl

theorem length_text_maps (dName : Field 255) (mp : Field 1023) :
    (Message.maps dName mp).text.length = dName.1.length + mp.1.length + 11 := by
  rw [text_maps]
  simp +arith

theorem length_collected :
    (devhostMaps.flatMap fun l => l.text ++ ['|']).length = 609 := by
  rw [List.length_flatMap]
  decide

/-- The six lines that are collected of the maps of a host of drivers. -/
def collected : Field 1023 :=
  ⟨devhostMaps.flatMap fun l => l.text ++ ['|'], length_collected.le.trans (by decide)⟩

def longMaps : Message := .maps ⟨"312".toList, by decide⟩ collected

theorem length_longMaps : longMaps.text.length = 623 := by
  have hlen : collected.1.length = 609 := length_collected
  rw [longMaps, length_text_maps, hlen]
  rfl

/-- 623 bytes are written, and 511 are stored. -/
theorem long_maps_overrun : ¬ WritesStored true false longMaps := by
  intro h
  have hwrites : .buf 623 ∈ kmsg true false longMaps := by
    rw [kmsg_formatted, length_longMaps]
    exact List.mem_cons_self
  have hle := h.stored 623 hwrites
  simp [vsnprintf, length_longMaps] at hle

end Kmsg
