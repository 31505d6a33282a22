import Cjdns.Dht.ReplyModule
import Cjdns.Library.Records

/-!
# The nodes of a reply

The nodes that are told are written one behind the other, each as its key and its path. Read at an
offset, a node is what it was written as, unless it is told again further on (`hear_replyNodes`).
-/

namespace Cjdns

open Searcher (SERIALIZED_SIZE KEY_SIZE Heard hear duplicateLoop isDuplicateEntry)

/-! ## Numbers -/

/-- The last byte of a number is the low one, and the others are those of what is left of it. -/
theorem bigEndianBytes_succ {width : ℕ} (count : ℕ) (number : BitVec width) :
    bigEndianBytes (count + 1) number =
      bigEndianBytes count (number >>> 8) ++ [number.extractLsb' 0 8] := by
  rw [bigEndianBytes, List.range_succ, List.map_append, bigEndianBytes, List.map_singleton]
  congr 1
  · apply List.map_congr_left
    intro index inside
    have before := List.mem_range.mp inside
    apply BitVec.eq_of_getLsbD_eq
    intro position _
    rw [BitVec.getLsbD_extractLsb', BitVec.getLsbD_extractLsb', BitVec.getLsbD_ushiftRight]
    congr 2
    omega
  · rw [Nat.add_sub_cancel, Nat.sub_self, Nat.mul_zero]

/-- A number that fits is read as it was written. -/
theorem bigEndian_bigEndianBytes {width : ℕ} (count : ℕ) (number : BitVec width)
    (fits : number.toNat < 2 ^ (8 * count)) :
    bigEndian width (bigEndianBytes count number) = number := by
  induction count generalizing number with
  | zero =>
      rw [Nat.mul_zero, Nat.pow_zero, Nat.lt_one_iff] at fits
      have zero : number = BitVec.ofNat width 0 := BitVec.eq_of_toNat_eq (by rw [fits]; simp)
      exact zero.symm
  | succ count ih =>
      have less : (number >>> 8).toNat < 2 ^ (8 * count) := by
        rw [BitVec.toNat_ushiftRight, Nat.shiftRight_eq_div_pow]
        apply Nat.div_lt_of_lt_mul
        rwa [← Nat.pow_add, Nat.add_comm, ← Nat.mul_succ]
      have front := ih (number >>> 8) less
      rw [bigEndian] at front
      rw [bigEndianBytes_succ, bigEndian, List.foldl_append, front, List.foldl_cons, List.foldl_nil]
      apply BitVec.eq_of_getLsbD_eq
      intro position inside
      rw [BitVec.getLsbD_or, BitVec.getLsbD_shiftLeft, BitVec.getLsbD_ushiftRight,
        BitVec.getLsbD_setWidth, BitVec.getLsbD_extractLsb']
      by_cases low : position < 8
      · simp [low, inside]
      · have place : 8 + (position - 8) = position := by omega
        simp [low, inside, place]

theorem length_bigEndianBytes {width : ℕ} (count : ℕ) (number : BitVec width) :
    (bigEndianBytes count number).length = count := by
  rw [bigEndianBytes, List.length_map, List.length_range]

/-! ## Addresses -/

theorem key_serialize (addr : Address) :
    bigEndian 256 (addr.serialize.take KEY_SIZE) = addr.key := by
  rw [Address.serialize, List.take_left' (length_bigEndianBytes 32 addr.key)]
  exact bigEndian_bigEndianBytes 32 addr.key addr.key.isLt

theorem parse_serialize (addr : Address) :
    Address.parse addr.serialize = { ip6 := 0, key := addr.key, path := addr.path } := by
  have path : bigEndian 64 (addr.serialize.drop 32) = addr.path := by
    rw [Address.serialize, List.drop_left' (length_bigEndianBytes 32 addr.key)]
    exact bigEndian_bigEndianBytes 8 addr.path addr.path.isLt
  rw [Address.parse, path]
  exact congrArg (fun key => (⟨0, key, addr.path⟩ : Address)) (key_serialize addr)

/-- The keys tell the front of what addresses are written as. -/
theorem take_serialize_eq_iff (first second : Address) :
    first.serialize.take KEY_SIZE = second.serialize.take KEY_SIZE ↔ first.key = second.key := by
  constructor
  · intro same
    rw [← key_serialize first, same, key_serialize]
  · intro same
    rw [Address.serialize, Address.serialize,
      List.take_left' (length_bigEndianBytes 32 first.key),
      List.take_left' (length_bigEndianBytes 32 second.key), same]

/-! ## Entries -/

variable [AddressCalc] {own asking sender : Address} {nodeList : List Node} {node : Node}
  {index i count : ℕ}

/-- A node as it is told to the one who asks -/
def toldAs (asking : Address) (node : Node) : Address :=
  { node.address with path := LabelSplicer.getLabelFor node.address.path asking.path }

/-- The node is told again further on. -/
def toldAgain (nodeList : List Node) (index : ℕ) (node : Node) : Bool :=
  (nodeList.drop (index + 1)).any fun other => other.address.key == node.address.key

/-- What the node at an index means to one who gets the list -/
def meant (own asking sender : Address) (nodeList : List Node) (index : ℕ) (node : Node) : Heard :=
  let addr := Address.forKey node.address.key
    (LabelSplicer.splice (toldAs asking node).path sender.path)
  if toldAgain nodeList index node then .skipped
  else if own.key = node.address.key then .looped (toldAs asking node).path
  else if addr.path = BitVec.allOnes 64 then .skipped
  else if AddressCalc.validAddress addr.ip6 then .told addr
  else .garbage

omit [AddressCalc] in
theorem readAt_replyNodes (found : nodeList[index]? = some node) (front : count ≤ SERIALIZED_SIZE) :
    Checked.readAt (RouterModule.replyNodes asking nodeList) (SERIALIZED_SIZE * index) count =
      .ok ((toldAs asking node).serialize.take count) := by
  have sized (node : Node) : (toldAs asking node).serialize.length = SERIALIZED_SIZE :=
    length_serialize _
  refine Checked.readAt_eq_ok.mpr ⟨?_, Records.take_drop_flatMap sized found front⟩
  exact le_trans (Nat.add_le_add_left front _) (Records.inside_flatMap sized found)

omit [AddressCalc] in
theorem lt_length_replyNodes_iff :
    SERIALIZED_SIZE * i < (RouterModule.replyNodes asking nodeList).length ↔
      i < nodeList.length := by
  rw [length_replyNodes, Nat.mul_comm nodeList.length]
  exact Nat.mul_lt_mul_left (by decide)

omit [AddressCalc] in
/-- Behind the node the loop looks for its key. -/
theorem duplicateLoop_replyNodes (found : nodeList[index]? = some node) {rounds : ℕ}
    (behind : index < i) (enough : nodeList.length ≤ i + rounds) :
    duplicateLoop (RouterModule.replyNodes asking nodeList) (SERIALIZED_SIZE * index) rounds
        (SERIALIZED_SIZE * i) =
      .ok ((nodeList.drop i).any fun other => other.address.key == node.address.key) := by
  induction rounds generalizing i with
  | zero =>
      rw [List.drop_eq_nil_of_le (by omega)]
      rfl
  | succ rounds ih =>
      rw [duplicateLoop, ← Nat.mul_succ, ih (Nat.lt_succ_of_lt behind) (by omega)]
      by_cases inside : i < nodeList.length
      · have other : SERIALIZED_SIZE * i ≠ SERIALIZED_SIZE * index := by
          change 40 * i ≠ 40 * index
          omega
        rw [if_pos (lt_length_replyNodes_iff.mpr inside), if_neg other,
          readAt_replyNodes found (by decide),
          readAt_replyNodes (List.getElem?_eq_getElem inside) (by decide),
          List.drop_eq_getElem_cons inside, List.any_cons]
        change (if _ = _ then _ else _) = _
        rw [if_congr (take_serialize_eq_iff _ _) rfl rfl]
        by_cases same : node.address.key = nodeList[i].address.key
        · rw [if_pos (show (toldAs asking node).key = (toldAs asking nodeList[i]).key from same),
            beq_iff_eq.mpr same.symm, Bool.true_or]
        · rw [if_neg (show ¬ (toldAs asking node).key = (toldAs asking nodeList[i]).key from same),
            beq_eq_false_iff_ne.mpr (Ne.symm same), Bool.false_or]
      · rw [if_neg (lt_length_replyNodes_iff.not.mpr inside),
          List.drop_eq_nil_of_le (not_lt.mp inside)]
        rfl

omit [AddressCalc] in
theorem isDuplicateEntry_replyNodes (found : nodeList[index]? = some node) :
    isDuplicateEntry (RouterModule.replyNodes asking nodeList) (SERIALIZED_SIZE * index) =
      .ok (toldAgain nodeList index node) := by
  have inside := (List.getElem?_eq_some_iff.mp found).1
  have rounds : (RouterModule.replyNodes asking nodeList).length / SERIALIZED_SIZE =
      nodeList.length := by
    rw [length_replyNodes, Nat.mul_div_cancel _ (by decide)]
  rw [isDuplicateEntry, rounds, duplicateLoop, if_pos (lt_length_replyNodes_iff.mpr inside),
    if_pos rfl, ← Nat.mul_succ, duplicateLoop_replyNodes found (Nat.lt_succ_self index) (by omega),
    toldAgain]

/-- A node that was told is heard as it was meant. -/
theorem hear_replyNodes (found : nodeList[index]? = some node) :
    hear own sender (RouterModule.replyNodes asking nodeList) (SERIALIZED_SIZE * index) =
      .ok (meant own asking sender nodeList index node) := by
  have whole : (toldAs asking node).serialize.take SERIALIZED_SIZE =
      (toldAs asking node).serialize :=
    List.take_of_length_le (length_serialize _).le
  rw [hear, isDuplicateEntry_replyNodes found, meant]
  by_cases again : toldAgain nodeList index node = true
  · rw [if_pos again]
    exact if_pos again
  · rw [if_neg again]
    refine (if_neg again).trans ?_
    rw [readAt_replyNodes found le_rfl, whole]
    change (if own.isSameIp (Address.parse (toldAs asking node).serialize) = true then _ else _) = _
    rw [parse_serialize]
    by_cases mine : own.key = node.address.key
    · rw [if_pos mine]
      exact if_pos (beq_iff_eq.mpr mine)
    · rw [if_neg mine]
      refine (if_neg (fun same => mine (beq_iff_eq.mp same))).trans ?_
      have addr (path : BitVec 64) :
          (Address.mk 0 (toldAs asking node).key path).resolved =
            Address.forKey node.address.key path := if_pos rfl
      dsimp only
      rw [addr]
      by_cases unspliced :
          LabelSplicer.splice (toldAs asking node).path sender.path = BitVec.allOnes 64
      · rw [if_pos unspliced]
        exact congrArg Except.ok (if_pos unspliced).symm
      · rw [if_neg unspliced]
        refine Eq.trans ?_ (congrArg Except.ok (if_neg unspliced).symm)
        split_ifs <;> rfl

end Cjdns
