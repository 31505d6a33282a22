import Cjdns.Benc.Object
import Cjdns.Dht.NodeStore
import Cjdns.Library.Checked
import Cjdns.Util.Hex

/-!
# The dump of the routing table

`NodeStore_dumpTable` answers with a page of eight rows. The row of the node itself is not in the
table; it is added where the recursion ends with both counters equal, as it does on page 0. A client
asks for the next page as long as it is told that there is more.

The page is multiplied and narrowed to an `int` without a check. The overflow of the multiplication
wraps.
-/

namespace Cjdns

namespace AddrTools

/-- Groups of four characters with another character between them -/
def grouped (separator : BitVec 8) : List (BitVec 8) → List (BitVec 8)
  | one :: two :: three :: four :: five :: rest =>
      one :: two :: three :: four :: separator :: grouped separator (five :: rest)
  | text => text

/-- The bytes of a word in big endian order -/
def bytesOf {width : ℕ} (count : ℕ) (word : BitVec width) : List (BitVec 8) :=
  (List.range count).map fun index => word.extractLsb' (8 * (count - 1 - index)) 8

/-- `AddrTools_printPath` -/
def printPath (path : BitVec 64) : BString :=
  grouped 0x2E (Hex.encode (bytesOf 8 path))

/-- `AddrTools_printIp` -/
def printIp (binIp : BitVec 128) : BString :=
  grouped 0x3A (Hex.encode (bytesOf 16 binIp))

end AddrTools

/-- The elements of a list -/
def BList.elements : BList → List Object
  | .nil => []
  | .cons elem next => elem :: elements next

variable [AddressCalc]

/-- `Address_printIp` -/
def Address.printIp (addr : Address) : BString :=
  AddrTools.printIp addr.resolved.ip6

namespace NodeStore

abbrev ENTRIES_PER_PAGE : ℕ := 8

/-- The key `routingTable` -/
abbrev ROUTING_TABLE : BString :=
  [0x72, 0x6F, 0x75, 0x74, 0x69, 0x6E, 0x67, 0x54, 0x61, 0x62, 0x6C, 0x65]

/-- The key `more` -/
abbrev MORE : BString := [0x6D, 0x6F, 0x72, 0x65]

/-- The key `count` -/
abbrev COUNT : BString := [0x63, 0x6F, 0x75, 0x6E, 0x74]

/-- The key `ip` -/
abbrev IP : BString := [0x69, 0x70]

/-- The key `link` -/
abbrev LINK : BString := [0x6C, 0x69, 0x6E, 0x6B]

/-- The key `path` -/
abbrev PATH : BString := [0x70, 0x61, 0x74, 0x68]

/-- The key `version` -/
abbrev VERSION : BString := [0x76, 0x65, 0x72, 0x73, 0x69, 0x6F, 0x6E]

/-- The key `page` -/
abbrev PAGE : BString := [0x70, 0x61, 0x67, 0x65]

/-- The dictionary `entry` of `addRoutingTableEntries` -/
def rowOf (ip : BString) (link : BitVec 32) (path : BString) (version : BitVec 32) : Object :=
  .dict (.cons IP (.string ip) (.cons LINK (.integer (link.setWidth 64))
    (.cons PATH (.string path) (.cons VERSION (.integer (version.setWidth 64)) .nil))))

/-- The row of a position -/
def row (entry : Entry) : Object :=
  rowOf entry.body.address.printIp entry.header.reach
    (AddrTools.printPath entry.body.address.path) entry.header.version

/-- The path "0000.0000.0000.0001" -/
abbrev SELF_PATH : BString :=
  [0x30, 0x30, 0x30, 0x30, 0x2E, 0x30, 0x30, 0x30, 0x30, 0x2E, 0x30, 0x30, 0x30, 0x30, 0x2E,
   0x30, 0x30, 0x30, 0x31]

/-- The row of the node itself -/
def selfRow (store : NodeStore) : Object :=
  rowOf store.thisNodeAddress.printIp 0xFFFFFFFF SELF_PATH Version.CURRENT_PROTOCOL

/-- `sendEntries`: the message that is sent with the transaction id of the request -/
def sendEntries (store : NodeStore) (last : BList) (isMore : Bool) : Dict :=
  let table := Dict.cons ROUTING_TABLE (.list last) .nil
  if isMore then .cons MORE (.integer 1) table
  else .cons COUNT (.integer ((BitVec.ofNat 32 (store.size + 1)).signExtend 64)) table

/-- `store->headers[i]` and `store->nodes[i]` -/
def entryAt (store : NodeStore) (i : ℤ) : Checked Entry :=
  if i < 0 then .error .outOfBounds else Checked.elementAt store.entries i.toNat

/-- `addRoutingTableEntries` -/
def addRoutingTableEntries (store : NodeStore) (i : ℤ) (j : ℕ) (last : BList) : Checked Dict :=
  if i ≥ store.size ∨ j ≥ ENTRIES_PER_PAGE then
    if i > j then .ok (sendEntries store last (j ≥ ENTRIES_PER_PAGE))
    else .ok (sendEntries store (.cons (selfRow store) last) (j ≥ ENTRIES_PER_PAGE))
  else do
    let entry ← entryAt store i
    addRoutingTableEntries store (i + 1) (j + 1) (.cons (row entry) last)
termination_by ENTRIES_PER_PAGE - j

/-- Where a page begins, as an `int` -/
def pageStart (page : BitVec 64) : ℤ :=
  ((page * 8).setWidth 32).toInt

/-- `dumpTable` -/
def dumpTable (args : Dict) (store : NodeStore) : Checked Dict :=
  let i := match args.getInt PAGE with
    | some page => pageStart page
    | none => 0
  addRoutingTableEntries store i 0 .nil

/-! ## Pages -/

/-- The rows of a message -/
def rowsOf (message : Dict) : List Object :=
  match message.getList ROUTING_TABLE with
  | some list => list.elements
  | none => []

/-- The message says that there is more. -/
def isMore (message : Dict) : Bool :=
  (message.getInt MORE).isSome

variable {store : NodeStore}

theorem rowsOf_sendEntries (store : NodeStore) (last : BList) (more : Bool) :
    rowsOf (sendEntries store last more) = last.elements := by
  cases more <;> rfl

theorem isMore_sendEntries (store : NodeStore) (last : BList) (more : Bool) :
    isMore (sendEntries store last more) = more := by
  cases more <;> rfl

/-- The rows that stand from an index on, as many as the page has room for -/
def rowsFrom (store : NodeStore) (start room : ℕ) : List Object :=
  ((store.entries.drop start).take room).map row

theorem rowsFrom_eq_nil {start room : ℕ} (behind : store.size ≤ start) :
    rowsFrom store start room = [] := by
  rw [rowsFrom, List.drop_eq_nil_of_le behind, List.take_nil, List.map_nil]

theorem rowsFrom_succ {start room : ℕ} (inside : start < store.entries.length) :
    rowsFrom store start (room + 1) =
      row store.entries[start] :: rowsFrom store (start + 1) room := by
  rw [rowsFrom, List.drop_eq_getElem_cons inside, List.take_succ_cons]
  rfl

/-- Where the recursion ends, it adds the row of the node itself if the index is not ahead. -/
theorem addRoutingTableEntries_stop (store : NodeStore) {start j : ℕ} (last : BList)
    (stop : store.size ≤ start ∨ ENTRIES_PER_PAGE ≤ j) :
    ∃ message, addRoutingTableEntries store start j last = .ok message ∧
      rowsOf message = (if start ≤ j then [selfRow store] else []) ++ last.elements ∧
      (isMore message = true ↔ ENTRIES_PER_PAGE ≤ j) := by
  rw [addRoutingTableEntries, if_pos (by omega)]
  split_ifs with ahead together together
  · omega
  · exact ⟨_, rfl, rowsOf_sendEntries .., by rw [isMore_sendEntries, decide_eq_true_iff]⟩
  · exact ⟨_, rfl, rowsOf_sendEntries .., by rw [isMore_sendEntries, decide_eq_true_iff]⟩
  · omega

/-- The recursion from an index that is not negative: the rows are put in front of each other. -/
theorem addRoutingTableEntries_eq (store : NodeStore) (start j : ℕ) (last : BList) :
    ∃ message, addRoutingTableEntries store start j last = .ok message ∧
      rowsOf message = (if start ≤ j then [selfRow store] else []) ++
        ((rowsFrom store start (ENTRIES_PER_PAGE - j)).reverse ++ last.elements) ∧
      (isMore message = true ↔
        start + (ENTRIES_PER_PAGE - j) ≤ store.size ∨ ENTRIES_PER_PAGE ≤ j) := by
  induction left : ENTRIES_PER_PAGE - j generalizing start j last with
  | zero =>
      have full : ENTRIES_PER_PAGE ≤ j := by omega
      have stop : store.size ≤ start ∨ ENTRIES_PER_PAGE ≤ j := .inr full
      rcases addRoutingTableEntries_stop store last stop with ⟨message, sends, rows, more⟩
      refine ⟨message, sends, ?_, more.trans (by omega)⟩
      rw [rows]
      rfl
  | succ left ih =>
      by_cases behind : store.size ≤ start
      · have stop : store.size ≤ start ∨ ENTRIES_PER_PAGE ≤ j := .inl behind
        rcases addRoutingTableEntries_stop store last stop with ⟨message, sends, rows, more⟩
        refine ⟨message, sends, ?_, more.trans (by omega)⟩
        rw [rows, rowsFrom_eq_nil behind]
        rfl
      · have inside : start < store.entries.length := not_le.mp behind
        have size : store.size = store.entries.length := rfl
        have reads : entryAt store start = .ok store.entries[start] := by
          rw [entryAt, if_neg (by omega), Checked.elementAt_eq_ok]
          exact List.getElem?_eq_getElem inside
        rcases ih (start + 1) (j + 1) (.cons (row store.entries[start]) last) (by omega) with
          ⟨message, sends, rows, more⟩
        refine ⟨message, ?_, ?_, more.trans (by omega)⟩
        · rw [addRoutingTableEntries, if_neg (by omega), reads]
          exact sends
        · rw [rows, rowsFrom_succ inside, List.reverse_cons, List.append_assoc]
          simp [BList.elements]

/-- The page that is asked for -/
def pageOf (args : Dict) : BitVec 64 :=
  (args.getInt PAGE).getD 0

theorem dumpTable_eq (args : Dict) (store : NodeStore) :
    dumpTable args store = addRoutingTableEntries store (pageStart (pageOf args)) 0 .nil := by
  rw [dumpTable, pageOf]
  cases args.getInt PAGE <;> rfl

/-- A page that begins at an index that is not negative -/
theorem dumpTable_of_start {args : Dict} {start : ℕ} (begins : pageStart (pageOf args) = start)
    (store : NodeStore) :
    ∃ message, dumpTable args store = .ok message ∧
      rowsOf message = (if start = 0 then [selfRow store] else []) ++
        (rowsFrom store start ENTRIES_PER_PAGE).reverse ∧
      (isMore message = true ↔ start + ENTRIES_PER_PAGE ≤ store.size) := by
  have some : 0 < ENTRIES_PER_PAGE := by decide
  rcases addRoutingTableEntries_eq store start 0 .nil with ⟨message, sends, rows, more⟩
  refine ⟨message, ?_, ?_, more.trans (by omega)⟩
  · rw [dumpTable_eq, begins]
    exact sends
  · rw [rows, BList.elements, List.append_nil]
    simp only [Nat.le_zero, Nat.sub_zero]

/-- Before the table nothing can be read. -/
theorem dumpTable_of_neg {args : Dict} (negative : pageStart (pageOf args) < 0)
    (store : NodeStore) : dumpTable args store = .error .outOfBounds := by
  rw [dumpTable_eq, addRoutingTableEntries, if_neg (by simp; omega), entryAt, if_pos negative]
  rfl

omit [AddressCalc] in
theorem pageStart_eq (page : BitVec 64) :
    pageStart page = (8 * page.toInt).bmod (2 ^ 32) := by
  rw [pageStart, BitVec.toInt_setWidth, BitVec.toNat_mul, BitVec.toInt_eq_toNat_bmod,
    show (8 : BitVec 64).toNat = 8 from rfl]
  simp only [Int.bmod_def]
  split_ifs <;> omega

omit [AddressCalc] in
/-- The start is not wrapped as long as it is an `int`. -/
theorem pageStart_of_small {page : BitVec 64} (nonnegative : 0 ≤ page.toInt)
    (small : 8 * page.toInt < 2 ^ 31) : pageStart page = 8 * page.toInt := by
  rw [pageStart_eq]
  exact Int.bmod_eq_of_le (by omega) (by omega)

/-- Only rows of the table are read, and a page has the rows that stand there, and that of the node
itself if it is page 0. -/
def ListsPage (store : NodeStore) (args : Dict) : Prop :=
  ∃ message, dumpTable args store = .ok message ∧
    (0 ≤ (pageOf args).toInt →
      (rowsOf message).Perm ((if (pageOf args).toInt = 0 then [selfRow store] else []) ++
        rowsFrom store (8 * (pageOf args).toInt.toNat) ENTRIES_PER_PAGE))

/-- Eight rows a page, in 32 bits: the page does not begin before the table, and if it is not
negative, then it is not wrapped into the table. -/
def Begins (store : NodeStore) (page : ℤ) : Prop :=
  let start := (8 * page).bmod (2 ^ 32)
  0 ≤ start ∧ (0 ≤ page → 8 * page < 2 ^ 31 ∨ (0 < start ∧ store.size ≤ start))

instance (store : NodeStore) (page : ℤ) : Decidable (Begins store page) :=
  inferInstanceAs (Decidable (0 ≤ (8 * page).bmod (2 ^ 32) ∧
    (0 ≤ page → 8 * page < 2 ^ 31 ∨
      (0 < (8 * page).bmod (2 ^ 32) ∧ store.size ≤ (8 * page).bmod (2 ^ 32)))))

theorem listsPage_iff {args : Dict} (small : store.size < 2 ^ 31) :
    ListsPage store args ↔ Begins store (pageOf args).toInt := by
  rw [Begins, ← pageStart_eq]
  by_cases negative : pageStart (pageOf args) < 0
  · refine iff_of_false ?_ fun begins => not_le.mpr negative begins.1
    rintro ⟨message, sends, -⟩
    rw [dumpTable_of_neg negative] at sends
    cases sends
  · rcases Int.eq_ofNat_of_zero_le (not_lt.mp negative) with ⟨start, begins⟩
    rcases dumpTable_of_start begins store with ⟨message, sends, rows, -⟩
    constructor
    · rintro ⟨other, again, lists⟩
      rw [sends, Except.ok.injEq] at again
      subst again
      refine ⟨not_lt.mp negative, fun nonnegative => ?_⟩
      by_cases fits : 8 * (pageOf args).toInt < 2 ^ 31
      · exact .inl fits
      · -- no row stands there, so that the message has none
        have perm := lists nonnegative
        rw [if_neg (by omega), rowsFrom_eq_nil (by omega), List.append_nil, List.perm_nil,
          rows, List.append_eq_nil_iff] at perm
        rcases perm with ⟨self, others⟩
        right
        have positive : start ≠ 0 := by
          rintro rfl
          simp at self
        have behind : store.size ≤ start := by
          by_contra inside
          rw [show ENTRIES_PER_PAGE = 7 + 1 from rfl, rowsFrom_succ (not_le.mp inside)] at others
          simp at others
        omega
    · rintro ⟨-, wraps⟩
      refine ⟨message, sends, fun nonnegative => ?_⟩
      by_cases fits : 8 * (pageOf args).toInt < 2 ^ 31
      · have exact := pageStart_of_small nonnegative fits
        have place : 8 * (pageOf args).toInt.toNat = start := by omega
        have zero : (pageOf args).toInt = 0 ↔ start = 0 := by omega
        rw [rows, place]
        simp only [zero]
        exact List.Perm.append_left _ (List.reverse_perm _)
      · rcases (wraps nonnegative).resolve_left fits with ⟨positive, behind⟩
        rw [rows, if_neg (by omega), if_neg (by omega), rowsFrom_eq_nil (by omega),
          rowsFrom_eq_nil (by omega)]
        exact List.Perm.refl _

/-! ## A client -/

/-- A client asks for a page, and for the next one if there is more. -/
inductive Follows (store : NodeStore) : ℕ → List Object → Prop where
  | stop {page : ℕ} {args message : Dict} (asks : pageOf args = BitVec.ofNat 64 page)
      (sends : dumpTable args store = .ok message) (last : isMore message = false) :
      Follows store page (rowsOf message)
  | next {page : ℕ} {args message : Dict} {rest : List Object}
      (asks : pageOf args = BitVec.ofNat 64 page) (sends : dumpTable args store = .ok message)
      (more : isMore message = true) (follows : Follows store (page + 1) rest) :
      Follows store page (rowsOf message ++ rest)

/-- The request for a page -/
def pageArgs (page : ℕ) : Dict :=
  .cons PAGE (.integer (BitVec.ofNat 64 page)) .nil

omit [AddressCalc] in
theorem pageOf_pageArgs (page : ℕ) : pageOf (pageArgs page) = BitVec.ofNat 64 page :=
  rfl

/-- What a client gets for a page that begins in the table or at its end -/
theorem dumpTable_of_page {page : ℕ} {args : Dict} (asks : pageOf args = BitVec.ofNat 64 page)
    (small : store.size < 2 ^ 31) (inside : 8 * page ≤ store.size) :
    ∃ message, dumpTable args store = .ok message ∧
      rowsOf message = (if page = 0 then [selfRow store] else []) ++
        (rowsFrom store (8 * page) ENTRIES_PER_PAGE).reverse ∧
      (isMore message = true ↔ 8 * (page + 1) ≤ store.size) := by
  have toInt : (pageOf args).toInt = page := by
    rw [asks, BitVec.toInt_eq_toNat_cond, BitVec.toNat_ofNat]
    split_ifs <;> omega
  have begins : pageStart (pageOf args) = (8 * page : ℕ) := by
    rw [pageStart_of_small (by omega) (by omega), toInt]
    rfl
  rcases dumpTable_of_start begins store with ⟨message, sends, rows, more⟩
  have eight : 8 * (page + 1) = 8 * page + ENTRIES_PER_PAGE := rfl
  refine ⟨message, sends, ?_, more.trans (by omega)⟩
  rw [rows]
  simp only [Nat.mul_eq_zero, OfNat.ofNat_ne_zero, false_or]

theorem rowsFrom_append (store : NodeStore) (start one two : ℕ) :
    rowsFrom store start (one + two) =
      rowsFrom store start one ++ rowsFrom store (start + one) two := by
  rw [rowsFrom, rowsFrom, rowsFrom, List.take_add, List.map_append, List.drop_drop]

/-- There are no more rows than the table has. -/
theorem rowsFrom_of_le {start room : ℕ} (enough : store.size ≤ start + room) :
    rowsFrom store start room = rowsFrom store start (store.size - start) := by
  have whole {count : ℕ} (all : store.size - start ≤ count) :
      (store.entries.drop start).take count = store.entries.drop start := by
    apply List.take_of_length_le
    rw [List.length_drop]
    exact all
  rw [rowsFrom, rowsFrom, whole (by omega), whole (le_refl _)]

/-- A client gets the rows from its page on, and then it stops. -/
theorem exists_follows (small : store.size < 2 ^ 31) {page : ℕ} (inside : 8 * page ≤ store.size) :
    ∃ rows, Follows store page rows ∧
      rows.Perm ((if page = 0 then [selfRow store] else []) ++
        rowsFrom store (8 * page) (store.size - 8 * page)) := by
  induction left : store.size - 8 * page using Nat.strong_induction_on generalizing page with
  | _ left ih =>
      subst left
      rcases dumpTable_of_page (pageOf_pageArgs page) small inside with
        ⟨message, sends, rows, more⟩
      by_cases further : 8 * (page + 1) ≤ store.size
      · rcases ih (store.size - 8 * (page + 1)) (by omega) further rfl with ⟨rest, follows, perm⟩
        refine ⟨_, .next (pageOf_pageArgs page) sends (more.mpr further) follows, ?_⟩
        have split : store.size - 8 * page =
            ENTRIES_PER_PAGE + (store.size - 8 * (page + 1)) := by
          change _ = 8 + _
          omega
        rw [if_neg (Nat.succ_ne_zero page), List.nil_append] at perm
        rw [rows, split, rowsFrom_append, List.append_assoc]
        exact List.Perm.append_left _ ((List.reverse_perm _).append perm)
      · have last : isMore message = false := by
          rw [← Bool.not_eq_true, more]
          exact further
        refine ⟨_, .stop (pageOf_pageArgs page) sends last, ?_⟩
        have enough : store.size ≤ 8 * page + ENTRIES_PER_PAGE := by
          change _ ≤ _ + 8
          omega
        rw [rows, ← rowsFrom_of_le enough]
        exact List.Perm.append_left _ (List.reverse_perm _)

/-- What a client gets does not depend on its other arguments. -/
theorem Follows.unique {page : ℕ} {rows others : List Object} (follows : Follows store page rows)
    (again : Follows store page others) : rows = others := by
  have same {page : ℕ} {one two first second : Dict} (asks : pageOf one = BitVec.ofNat 64 page)
      (sends : dumpTable one store = .ok first) (asksToo : pageOf two = BitVec.ofNat 64 page)
      (sendsToo : dumpTable two store = .ok second) : first = second := by
    rw [dumpTable_eq, asks] at sends
    rw [dumpTable_eq, asksToo, sends, Except.ok.injEq] at sendsToo
    exact sendsToo
  induction follows generalizing others with
  | stop asks sends last =>
      cases again with
      | stop asksToo sendsToo _ => rw [same asks sends asksToo sendsToo]
      | next asksToo sendsToo more _ =>
          rw [← same asks sends asksToo sendsToo, last] at more
          cases more
  | next asks sends more _ ih =>
      cases again with
      | stop asksToo sendsToo last =>
          rw [← same asks sends asksToo sendsToo, more] at last
          cases last
      | next asksToo sendsToo _ rest =>
          rw [same asks sends asksToo sendsToo, ih rest]

/--
The pages of the routing table: what is asked for is listed and nothing else is read, except where
the start of the page is wrapped in front of the table or into it; and a client that begins with
page 0 gets every row, and that of the node itself, exactly once.
-/
theorem dumpTable_pages (store : NodeStore) (small : store.size < 2 ^ 31) :
    (∀ args, ListsPage store args ↔ Begins store (pageOf args).toInt) ∧
      ∃ rows, Follows store 0 rows ∧ (∀ others, Follows store 0 others → others = rows) ∧
        rows.Perm (selfRow store :: store.entries.map row) := by
  constructor
  · intro args
    exact listsPage_iff small
  · rcases @exists_follows _ store small 0 (Nat.zero_le _) with ⟨rows, follows, perm⟩
    refine ⟨rows, follows, fun others again => again.unique follows, ?_⟩
    have all : rowsFrom store (8 * 0) (store.size - 8 * 0) = store.entries.map row := by
      rw [rowsFrom, Nat.mul_zero, List.drop_zero, Nat.sub_zero, size, List.take_length]
    rw [all] at perm
    exact perm

/-- A table of ten nodes -/
def tenNodes : NodeStore where
  thisNodeAddress := { ip6 := 0xFC00000000000000000000000000000F, key := 7, path := 1 }
  capacity := 16
  entries := (List.range 10).map fun index =>
    let addr : Address :=
      { ip6 := 0xFC000000000000000000000000000010 + BitVec.ofNat 128 index
        key := BitVec.ofNat 256 index
        path := 0x13 + BitVec.ofNat 64 (16 * index) }
    (Entry.replaceNode { reach := 0, version := 0, address := addr } addr).withReach
      (BitVec.ofNat 32 index)
  labelSum := 70

omit [AddressCalc] in
/-- The second page has the last two nodes, page -1 is not listed, and a client gets eleven rows on
two pages. -/
theorem dumpTable_pages_of_ten_nodes :
    letI := AddressCalc.plain
    ListsPage tenNodes (pageArgs 1) ∧ ¬ListsPage tenNodes (.cons PAGE (.integer (-1)) .nil) ∧
      ∃ rows, Follows tenNodes 0 rows ∧
        rows.Perm (selfRow tenNodes :: tenNodes.entries.map row) ∧ rows.length = 11 := by
  let := AddressCalc.plain
  rcases dumpTable_pages tenNodes (by decide) with ⟨lists, rows, follows, -, perm⟩
  have second : Begins tenNodes (pageOf (pageArgs 1)).toInt := by decide
  have before : ¬Begins tenNodes (pageOf (.cons PAGE (.integer (-1)) .nil)).toInt := by decide
  refine ⟨(lists _).mpr second, fun listed => before ((lists _).mp listed), rows, follows, perm, ?_⟩
  rw [perm.length_eq]
  rfl

omit [AddressCalc] in
/-- Page -1 begins in front of the table. -/
theorem page_before_the_table_is_read :
    letI := AddressCalc.plain
    ¬ ∀ (store : NodeStore) (args : Dict), store.size < 2 ^ 31 → ListsPage store args := by
  let := AddressCalc.plain
  intro lists
  rcases lists tenNodes (.cons PAGE (.integer (-1)) .nil) (by decide) with ⟨message, sends, -⟩
  have negative : pageStart (pageOf (.cons PAGE (.integer (-1)) .nil)) < 0 := by decide
  rw [dumpTable_of_neg negative] at sends
  cases sends

end NodeStore

end Cjdns
