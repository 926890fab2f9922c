import Dcpu.Memory
import Dcpu.Proofs.Program.Assembly
import Dcpu.Proofs.Program.Starts
import Mathlib.Algebra.GroupWithZero.Nat

/-! Which tags are kept with the machine code of a program, and at which addresses. An entry keeps
its place in the map unless a later one has its tag, or starts at the same address where the code is
longer than memory. -/
namespace Dcpu

open Fallible

namespace AddressMap

variable {τ : Type} [BEq τ] [Hashable τ]

theorem mem_toList_iff {m : AddressMap τ} {address : Word} {tag : τ} :
    (address, tag) ∈ m.toList ↔ m.tagAt? address = some tag := by
  rw [toList, List.mem_mergeSort]
  exact Std.HashMap.mem_toList_iff_getElem?_eq_some

variable [LawfulBEq τ]

/-- Insert pairs one after the other. -/
def insertAll (m : AddressMap τ) (pairs : List (Word × τ)) : AddressMap τ :=
  pairs.foldl (fun m pair => m.insert pair.1 pair.2) m

/-- A pair is in the map if it is the last of those that share its address or its tag. -/
theorem tagAt?_insertAll {m : AddressMap τ} {pairs : List (Word × τ)} {address : Word} {tag : τ} :
    (m.insertAll pairs).tagAt? address = some tag ↔
      (∃ k : Nat, pairs[k]? = some (address, tag) ∧
        ∀ l > k, ∀ pair : Word × τ, pairs[l]? = some pair → pair.1 ≠ address ∧ pair.2 ≠ tag) ∨
      (m.tagAt? address = some tag ∧ ∀ pair ∈ pairs, pair.1 ≠ address ∧ pair.2 ≠ tag) := by
  induction pairs generalizing m with
  | nil => simp [insertAll]
  | cons pair pairs ih =>
    rw [insertAll, List.foldl_cons, ← insertAll, ih, tagAt?_insert]
    constructor
    · intro h
      obtain ⟨k, hk, hlater⟩ | ⟨⟨rfl, rfl⟩ | ⟨haddress, htag, hm⟩, hlater⟩ := h
      · refine Or.inl ⟨k + 1, hk, fun l hl => ?_⟩
        cases l with
        | zero => omega
        | succ l => exact hlater l (by omega)
      · refine Or.inl ⟨0, rfl, fun l hl => ?_⟩
        cases l with
        | zero => omega
        | succ l => exact fun q hq => hlater q (List.mem_of_getElem? hq)
      · exact Or.inr ⟨hm, List.forall_mem_cons.2 ⟨⟨haddress.symm, htag.symm⟩, hlater⟩⟩
    · intro h
      obtain ⟨k, hk, hlater⟩ | ⟨hm, hlater⟩ := h
      · cases k with
        | zero =>
          cases hk
          refine Or.inr ⟨Or.inl ⟨rfl, rfl⟩, fun q hq => ?_⟩
          obtain ⟨l, hl⟩ := List.getElem?_of_mem hq
          exact hlater (l + 1) (by omega) q hl
        | succ k => exact Or.inl ⟨k, hk, fun l hl => hlater (l + 1) (by omega)⟩
      · obtain ⟨⟨haddress, htag⟩, hlater⟩ := List.forall_mem_cons.1 hlater
        exact Or.inr ⟨Or.inr ⟨haddress.symm, htag.symm, hm⟩, hlater⟩

end AddressMap

/-- How many words an instruction takes in machine code, or none if it cannot stand there. -/
def Instruction.codeLength (i : Instruction) : Nat :=
  match i.encode with
  | .ok words => words.length
  | .error _ => 0

theorem Instruction.codeLength_of_encode {i : Instruction} {words : List Word}
    (he : i.encode = .ok words) : i.codeLength = words.length := by
  rw [codeLength, he]

namespace Program

theorem assemble_cons_of_ok {i : Instruction} {head : List Word} (he : i.encode = .ok head)
    (is : List Instruction) : assemble (i :: is) = (assemble is).map (head ++ ·) := by
  unfold assemble
  rw [List.mapM_cons, he]
  cases is.mapM Instruction.encode <;> rfl

theorem assemble_cons_of_error {i : Instruction} {e : EncodeError} (he : i.encode = .error e)
    (is : List Instruction) : assemble (i :: is) = .error e := by
  unfold assemble
  rw [List.mapM_cons, he]
  rfl

/-- How many words of machine code stand before the instruction at a position. -/
def offset (is : List Instruction) (k : Nat) : Nat :=
  ((is.take k).map Instruction.codeLength).sum

theorem offset_cons_succ (i : Instruction) (is : List Instruction) (k : Nat) :
    offset (i :: is) (k + 1) = i.codeLength + offset is k := rfl

theorem offset_add (is : List Instruction) (k n : Nat) :
    offset is (k + n) = offset is k + offset (is.drop k) n := by
  simp [offset, List.take_add]

theorem offset_le {is : List Instruction} {code : List Word} (h : assemble is = .ok code)
    (k : Nat) : offset is k ≤ code.length := by
  induction is generalizing k code with
  | nil => simp [offset]
  | cons i is ih =>
    obtain ⟨head, tail, he, ht, rfl⟩ := assemble_cons_eq_ok_iff.1 h
    cases k with
    | zero => exact Nat.zero_le _
    | succ k =>
      have htail := ih ht k
      rw [offset_cons_succ, Instruction.codeLength_of_encode he, List.length_append]
      omega

/-- At the offset of an instruction stands its encoding. -/
theorem drop_offset {is : List Instruction} {code : List Word} {k : Nat} {i : Instruction}
    (h : assemble is = .ok code) (hk : is[k]? = some i) : ∃ words, i.encode = .ok words ∧
      code.drop (offset is k) = words ++ code.drop (offset is k + words.length) := by
  induction is generalizing k code with
  | nil => cases hk
  | cons j is ih =>
    obtain ⟨head, tail, he, ht, rfl⟩ := assemble_cons_eq_ok_iff.1 h
    cases k with
    | zero =>
      cases hk
      exact ⟨head, he, by simp [offset]⟩
    | succ k =>
      obtain ⟨words, he', hdrop⟩ := ih ht hk
      refine ⟨words, he', ?_⟩
      rw [offset_cons_succ, Instruction.codeLength_of_encode he, Nat.add_assoc,
        List.drop_length_add_append, List.drop_length_add_append, hdrop]

theorem offset_lt {is : List Instruction} {code : List Word} {k l : Nat} {i : Instruction}
    (h : assemble is = .ok code) (hk : is[k]? = some i) (hl : k < l) :
    offset is k < offset is l := by
  obtain ⟨words, he, -⟩ := drop_offset h hk
  have hpos := Instruction.length_pos_of_encode he
  obtain ⟨hlt, rfl⟩ := List.getElem?_eq_some_iff.1 hk
  obtain ⟨n, rfl⟩ := Nat.exists_eq_add_of_lt hl
  rw [Nat.add_assoc, offset_add, List.drop_eq_getElem_cons hlt, offset_cons_succ,
    Instruction.codeLength_of_encode he]
  omega

variable {τ : Type}

theorem getElem?_map_fst {entries : List (Instruction × τ)} {k : Nat} {i : Instruction} {tag : τ}
    (h : entries[k]? = some (i, tag)) : (entries.map Prod.fst)[k]? = some i := by
  rw [List.getElem?_map, h, Option.map_some]

/-- The pairs of address and tag that entries come with, if the first starts at the given offset. -/
def startPairs (start : Nat) : List (Instruction × τ) → List (Word × τ)
  | [] => []
  | (i, tag) :: entries => (UInt16.ofNat start, tag) :: startPairs (start + i.codeLength) entries

theorem getElem?_startPairs (start : Nat) (entries : List (Instruction × τ)) (k : Nat) :
    (startPairs start entries)[k]? = entries[k]?.map fun entry =>
      (UInt16.ofNat (start + offset (entries.map Prod.fst) k), entry.2) := by
  induction entries generalizing start k with
  | nil => rfl
  | cons entry entries ih =>
    cases k with
    | zero => rfl
    | succ k => simp [startPairs, ih, offset_cons_succ, Nat.add_assoc]

variable [BEq τ] [LawfulBEq τ] [Hashable τ]

/-- Entries that follow a program put their code behind its code and their pairs into its map. -/
theorem Tagged.foldlM_append (p : Tagged τ) (entries : List (Instruction × τ)) :
    entries.foldlM (fun p entry => p.append entry.1 entry.2) p =
      (assemble (entries.map Prod.fst)).map fun words =>
        ⟨p.code ++ words, p.starts.insertAll (startPairs p.code.size entries)⟩ := by
  induction entries generalizing p with
  | nil =>
    change Except.ok p = .ok ⟨p.code ++ [], p.starts⟩
    rw [Array.appendList_nil]
  | cons entry entries ih =>
    obtain ⟨i, tag⟩ := entry
    rw [List.foldlM_cons, List.map_cons]
    cases he : i.encode with
    | error e =>
      have happend : p.append i tag = .error e := by rw [append, he]
      rw [happend, assemble_cons_of_error he]
      rfl
    | ok words =>
      rw [append_eq_ok_iff.2 ⟨words, he, rfl⟩, assemble_cons_of_ok he]
      refine (ih _).trans ?_
      cases assemble (entries.map Prod.fst) with
      | error e => rfl
      | ok rest =>
        have hsize : (p.code ++ words).size = p.code.size + i.codeLength := by
          rw [Instruction.codeLength_of_encode he, ← Array.length_toList,
            Array.toList_appendList, List.length_append, Array.length_toList]
        have hcode : p.code ++ words ++ rest = p.code ++ (words ++ rest) :=
          Array.toList_inj.1 (by simp)
        simp only [hsize, hcode, Except.map]
        rfl

theorem assembleTagged_eq (entries : List (Instruction × τ)) :
    assembleTagged entries = (assemble (entries.map Prod.fst)).map fun words =>
      ⟨words.toArray, AddressMap.empty.insertAll (startPairs 0 entries)⟩ := by
  rw [assembleTagged, Tagged.foldlM_append]
  congr 1
  funext words
  have hcode : Array.empty ++ words = words.toArray := Array.toList_inj.1 Array.toList_appendList
  exact congrArg (Tagged.mk · _) hcode

theorem assembleTagged_eq_ok_iff {entries : List (Instruction × τ)} {p : Tagged τ} :
    assembleTagged entries = .ok p ↔ assemble (entries.map Prod.fst) = .ok p.code.toList ∧
      p.starts = AddressMap.empty.insertAll (startPairs 0 entries) := by
  obtain ⟨code, starts⟩ := p
  rw [assembleTagged_eq, map_eq_ok_iff]
  constructor
  · intro h
    obtain ⟨words, h, ⟨⟩⟩ := h
    exact ⟨h, rfl⟩
  · intro h
    obtain ⟨h, rfl⟩ := h
    exact ⟨code.toList, h, rfl⟩

/-- The first instruction without an encoding decides the failure. -/
theorem assemble_eq_error_iff {is : List Instruction} {e : EncodeError} :
    assemble is = .error e ↔ ∃ k i, is[k]? = some i ∧ i.encode = .error e ∧
      ∀ j ∈ is.take k, ∃ words, j.encode = .ok words := by
  induction is with
  | nil => simp [assemble, pure, Except.pure, bind, Except.bind]
  | cons i is ih =>
    cases he : i.encode with
    | error e' =>
      rw [assemble_cons_of_error he, Except.error.injEq]
      constructor
      · intro h
        exact ⟨0, i, rfl, h ▸ he, by simp⟩
      · intro h
        obtain ⟨k, j, hj, hfails, hbefore⟩ := h
        cases k with
        | zero =>
          cases hj
          exact Except.error.inj (he.symm.trans hfails)
        | succ k =>
          obtain ⟨words, hwords⟩ := hbefore i List.mem_cons_self
          cases he.symm.trans hwords
    | ok head =>
      rw [assemble_cons_of_ok he, map_eq_error_iff, ih]
      constructor
      · intro h
        obtain ⟨k, j, hj, hfails, hbefore⟩ := h
        exact ⟨k + 1, j, hj, hfails, List.forall_mem_cons.2 ⟨⟨head, he⟩, hbefore⟩⟩
      · intro h
        obtain ⟨k, j, hj, hfails, hbefore⟩ := h
        cases k with
        | zero =>
          cases hj
          cases he.symm.trans hfails
        | succ k => exact ⟨k, j, hj, hfails, (List.forall_mem_cons.1 hbefore).2⟩

section Starts

variable {entries : List (Instruction × τ)} {p : Tagged τ}

/-- The map holds the start of each entry that no later entry takes the tag or the address from. -/
theorem mem_starts_iff (h : assembleTagged entries = .ok p) {address : Word} {tag : τ} :
    (address, tag) ∈ p.starts.toList ↔ ∃ k i, entries[k]? = some (i, tag) ∧
      address = UInt16.ofNat (offset (entries.map Prod.fst) k) ∧
        ∀ l > k, ∀ j t, entries[l]? = some (j, t) →
          t ≠ tag ∧ UInt16.ofNat (offset (entries.map Prod.fst) l) ≠ address := by
  rw [AddressMap.mem_toList_iff, (assembleTagged_eq_ok_iff.1 h).2, AddressMap.tagAt?_insertAll,
    AddressMap.tagAt?_empty]
  simp only [getElem?_startPairs, Nat.zero_add, Option.map_eq_some_iff, Prod.exists, Prod.mk.injEq,
    reduceCtorEq, false_and, or_false]
  constructor
  · intro h
    obtain ⟨k, ⟨i, _, hk, rfl, rfl⟩, hlater⟩ := h
    refine ⟨k, i, hk, rfl, fun l hl j t hlt => ?_⟩
    exact (hlater l hl _ ⟨j, t, hlt, rfl⟩).symm
  · intro h
    obtain ⟨k, i, hk, rfl, hlater⟩ := h
    refine ⟨k, ⟨i, tag, hk, rfl, rfl⟩, fun l hl pair hpair => ?_⟩
    obtain ⟨j, t, hlt, rfl⟩ := hpair
    exact (hlater l hl j t hlt).symm

/-- Tags that differ are all kept, as long as the code fits into memory. -/
theorem addressOf?_of_nodup (h : assembleTagged entries = .ok p)
    (hnodup : (entries.map Prod.snd).Nodup) (hfits : p.code.size ≤ Memory.size) {k : Nat}
    {i : Instruction} {tag : τ} (hk : entries[k]? = some (i, tag)) :
    ∃ address, p.starts.addressOf? tag = some address ∧
      address.toNat = offset (entries.map Prod.fst) k := by
  have hcode := (assembleTagged_eq_ok_iff.1 h).1
  have hlt {l : Nat} {j : Instruction} {t : τ} (hl : entries[l]? = some (j, t)) :
      offset (entries.map Prod.fst) l < 65536 := by
    have hnext := offset_lt hcode (getElem?_map_fst hl) (Nat.lt_succ_self l)
    have hend := offset_le hcode (l + 1)
    rw [Array.length_toList] at hend
    exact Nat.lt_of_lt_of_le hnext (Nat.le_trans hend hfits)
  have hword := Nat.mod_eq_of_lt (hlt hk)
  refine ⟨UInt16.ofNat (offset (entries.map Prod.fst) k), ?_, ?_⟩
  · rw [AddressMap.addressOf?_eq_some_iff, ← AddressMap.mem_toList_iff, mem_starts_iff h]
    refine ⟨k, i, hk, rfl, fun l hl j t hlater => ⟨fun htag => ?_, fun haddress => ?_⟩⟩
    · have hlength : l < (entries.map Prod.snd).length := by
        rw [List.length_map]
        exact (List.getElem?_eq_some_iff.1 hlater).1
      have hsame : (entries.map Prod.snd)[l]? = (entries.map Prod.snd)[k]? := by
        rw [List.getElem?_map, List.getElem?_map, hk, hlater, ← htag]
        rfl
      have hposition := (List.getElem?_inj hlength hnodup).1 hsame
      omega
    · have hoffset := offset_lt hcode (getElem?_map_fst hk) hl
      have hnat := congrArg UInt16.toNat haddress
      rw [UInt16.toNat_ofNat', UInt16.toNat_ofNat', hword, Nat.mod_eq_of_lt (hlt hlater)] at hnat
      omega
  · rw [UInt16.toNat_ofNat', hword]

end Starts

/-- Tagging changes neither the code of a program nor its failure, which is that of the first
instruction without an encoding. The map holds the entries that no later one displaces. If no two
tags are the same and the code fits into memory these are all entries, each at the address where its
instruction is read back. -/
theorem assembleTagged_exact (entries : List (Instruction × τ)) :
    (assembleTagged entries).map (·.code.toList) = assemble (entries.map Prod.fst) ∧
    (∀ e, assembleTagged entries = .error e ↔
      ∃ k i, (entries.map Prod.fst)[k]? = some i ∧ i.encode = .error e ∧
        ∀ j ∈ (entries.map Prod.fst).take k, ∃ words, j.encode = .ok words) ∧
    ∀ p, assembleTagged entries = .ok p →
      (∀ address tag, (address, tag) ∈ p.starts.toList ↔ ∃ k i, entries[k]? = some (i, tag) ∧
        address = UInt16.ofNat (offset (entries.map Prod.fst) k) ∧
          ∀ l > k, ∀ j t, entries[l]? = some (j, t) →
            t ≠ tag ∧ UInt16.ofNat (offset (entries.map Prod.fst) l) ≠ address) ∧
      ((entries.map Prod.snd).Nodup → p.code.size ≤ Memory.size →
        ∀ k i tag, entries[k]? = some (i, tag) → ∃ address words,
          p.starts.addressOf? tag = some address ∧
          address.toNat = offset (entries.map Prod.fst) k ∧ i.encode = .ok words ∧
          Instruction.load (WordCursor.ofList (p.code.toList.drop address.toNat)) =
            .ok i.canonical ⟨p.code.toList.drop (address.toNat + words.length), words.length⟩) := by
  refine ⟨?_, fun e => ?_, fun p h => ⟨fun address tag => mem_starts_iff h, ?_⟩⟩
  · rw [assembleTagged_eq]
    cases assemble (entries.map Prod.fst) <;> rfl
  · rw [assembleTagged_eq, map_eq_error_iff, assemble_eq_error_iff]
  · intro hnodup hfits k i tag hk
    obtain ⟨address, htag, haddress⟩ := addressOf?_of_nodup h hnodup hfits hk
    have hcode := (assembleTagged_eq_ok_iff.1 h).1
    obtain ⟨words, he, hdrop⟩ := drop_offset hcode (getElem?_map_fst hk)
    refine ⟨address, words, htag, haddress, he, ?_⟩
    rw [haddress, hdrop]
    exact Instruction.load_ofList_append he _

/-- A literal takes a word of its own, so that the instruction behind it starts at address 2. -/
theorem assembleTagged_exact_of_two :
    let entries : List (Instruction × Nat) :=
      [(⟨.operate .set, some (.register .a), .literal 0x1234⟩, 7),
        (⟨.operate .set, some .pc, .literal 0⟩, 3)]
    ∃ p, assembleTagged entries = .ok p ∧ (entries.map Prod.snd).Nodup ∧
      p.code.size ≤ Memory.size ∧ p.starts.addressOf? 7 = some 0 ∧
      p.starts.addressOf? 3 = some 2 ∧
      Instruction.load (WordCursor.ofList p.code.toList) =
        .ok ⟨.operate .set, some (.register .a), .immediate 0x1234⟩ ⟨[0x8781], 2⟩ := by
  intro entries
  let starts : AddressMap Nat := (AddressMap.empty.insert 0 7).insert 2 3
  have hp : assembleTagged entries = .ok ⟨#[0x7c01, 0x1234, 0x8781], starts⟩ := rfl
  have hnodup : (entries.map Prod.snd).Nodup := by decide
  have hfits : #[(0x7c01 : Word), 0x1234, 0x8781].size ≤ Memory.size := by decide
  obtain ⟨-, hall⟩ := (assembleTagged_exact entries).2.2 _ hp
  obtain ⟨first, words, hfirst, haddress, he, hload⟩ := hall hnodup hfits 0 _ 7 rfl
  obtain ⟨second, _, hsecond, haddress', -⟩ := hall hnodup hfits 1 _ 3 rfl
  obtain rfl : first = 0 := UInt16.toNat_inj.1 haddress
  obtain rfl : second = 2 := UInt16.toNat_inj.1 haddress'
  cases he
  exact ⟨_, hp, hnodup, hfits, hfirst, hsecond, hload⟩

end Program

end Dcpu
