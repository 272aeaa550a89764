import IDAPlugins.Codes
import IDAPlugins.CommentList.Scanning
import IDAPlugins.Overlay

namespace IDAPlugins.CommentList

open Codes Firsts

/-! # Escaping a comment

`ListPush` writes the text into a buffer of the size that the text itself came in, two
characters for a line break, and takes the string that starts there.
-/

/-- A text as `get_cmt` leaves it in a buffer of 0x200 bytes. -/
structure Comment where
  dwAddr : Nat
  szBuf : List UInt8
  noNul : 0 ∉ szBuf
  short : szBuf.length ≤ 0x1FF

structure Pushing where
  i : Nat
  j : Nat
  szTmpBuf : List UInt8

def listPushPass (lpStr : List UInt8) (state : Pushing) : Option (Loop.Pass Pushing (List UInt8)) :=
  match lpStr[state.i]? with
  | none => some (.leave state.szTmpBuf)
  | some ch =>
    if ch = 0x0A then do
      let szTmpBuf ← Overlay.put 0x200 state.szTmpBuf state.j [0x5C, 0x6E]
      some (.again { i := state.i + 1, j := state.j + 2, szTmpBuf })
    else do
      let szTmpBuf ← Overlay.put 0x200 state.szTmpBuf state.j [ch]
      some (.again { i := state.i + 1, j := state.j + 1, szTmpBuf })

/-- `szTmpBuf` behind the loop; `none` is a character written behind it. -/
def listPushBuffer (lpStr : List UInt8) : Option (List UInt8) :=
  Loop.run (listPushPass lpStr) (lpStr.length + 1)
    { i := 0, j := 0, szTmpBuf := List.replicate 0x200 0 }

/-- The string that starts at the buffer; `none` is one that runs over its end. -/
def stringOf (szTmpBuf : List UInt8) : Option (List UInt8) :=
  if 0 ∈ szTmpBuf then some (szTmpBuf.takeWhile (· ≠ 0)) else none

def listPushString (lpStr : List UInt8) : Option (List UInt8) :=
  (listPushBuffer lpStr).bind stringOf

variable {lpStr : List UInt8} {k : Nat}

def escapedChar (ch : UInt8) : List UInt8 := if ch = 0x0A then [0x5C, 0x6E] else [ch]

theorem escaped_eq (lpStr : List UInt8) : escaped lpStr = encode escapedChar lpStr := rfl

theorem escaped_length (lpStr : List UInt8) :
    (escaped lpStr).length = lpStr.length + lpStr.count 0x0A := by
  induction lpStr with
  | nil => rfl
  | cons ch rest ih =>
    rw [escaped_eq, encode_cons, List.length_append, ← escaped_eq, ih, List.length_cons,
      List.count_cons, escapedChar]
    by_cases newline : ch = 0x0A
    · simp [newline]
      omega
    · simp [newline]
      omega

theorem listPushPass_eq (state : Pushing) :
    listPushPass lpStr state =
      match lpStr[state.i]? with
      | none => some (.leave state.szTmpBuf)
      | some ch => (Overlay.put 0x200 state.szTmpBuf state.j (escapedChar ch)).map fun szTmpBuf =>
          .again { i := state.i + 1, j := state.j + (escapedChar ch).length, szTmpBuf } := by
  rw [listPushPass]
  cases lpStr[state.i]? with
  | none => rfl
  | some ch =>
    simp only [escapedChar]
    by_cases newline : ch = 0x0A
    · rw [if_pos newline, if_pos newline]
      exact Option.map_eq_bind.symm
    · rw [if_neg newline, if_neg newline]
      exact Option.map_eq_bind.symm

/-- The state in front of character `k`. -/
def pushed (lpStr : List UInt8) (k : Nat) : Pushing where
  i := k
  j := place escapedChar lpStr k
  szTmpBuf := encode escapedChar (lpStr.take k) ++
    List.replicate (0x200 - place escapedChar lpStr k) 0

theorem listPushPass_char (bound : k < lpStr.length) :
    listPushPass lpStr (pushed lpStr k) =
      if place escapedChar lpStr (k + 1) ≤ 0x200 then some (.again (pushed lpStr (k + 1))) else none := by
  have next : place escapedChar lpStr (k + 1) =
      place escapedChar lpStr k + (escapedChar lpStr[k]).length := place_succ bound
  rw [listPushPass_eq]
  simp only [pushed, List.getElem?_eq_getElem bound]
  by_cases room : place escapedChar lpStr (k + 1) ≤ 0x200
  · have cells : List.replicate (0x200 - place escapedChar lpStr k) (0 : UInt8) =
        List.replicate (escapedChar lpStr[k]).length 0 ++
          List.replicate (0x200 - place escapedChar lpStr (k + 1)) 0 := by
      rw [List.replicate_append_replicate]
      congr 1
      omega
    have stored : Overlay.put 0x200 (encode escapedChar (lpStr.take k) ++
        List.replicate (0x200 - place escapedChar lpStr k) 0) (place escapedChar lpStr k)
        (escapedChar lpStr[k]) =
          some (encode escapedChar (lpStr.take k) ++ (escapedChar lpStr[k] ++
            List.replicate (0x200 - place escapedChar lpStr (k + 1)) 0)) := by
      rw [cells]
      exact Overlay.put_replaces List.length_replicate.symm
        (by rw [List.length_replicate, ← place]; omega)
    rw [if_pos room, stored, Option.map_some, next, encode_take_succ bound, List.append_assoc]
  · have outside : ¬ (Overlay.put 0x200 (encode escapedChar (lpStr.take k) ++
        List.replicate (0x200 - place escapedChar lpStr k) 0) (place escapedChar lpStr k)
        (escapedChar lpStr[k])).isSome := by
      rw [Overlay.put_isSome_iff]
      intro inside
      have last := inside (place escapedChar lpStr k + (escapedChar lpStr[k]).length - 1)
      have one : 0 < (escapedChar lpStr[k]).length := by
        unfold escapedChar
        split
        · exact Nat.two_pos
        · exact Nat.one_pos
      omega
    rw [if_neg room, Option.not_isSome_iff_eq_none.mp outside, Option.map_none]

/-- The buffer holds the escaped text, where that fits. -/
theorem listPushBuffer_run (room : (escaped lpStr).length ≤ 0x200) :
    listPushBuffer lpStr =
      some (escaped lpStr ++ List.replicate (0x200 - (escaped lpStr).length) 0) := by
  rw [escaped_eq] at room ⊢
  have trace := Loop.run_trace (pushed lpStr) lpStr.length
    (fun k bound => (listPushPass_char bound).trans
      (if_pos (Nat.le_trans (place_le escapedChar lpStr (k + 1)) room))) 1
  rw [Nat.add_comm] at trace
  refine trace.trans (Loop.run_leave ?_ 0)
  simp only [listPushPass, pushed, List.getElem?_eq_none (Nat.le_refl _), place_length, List.take_length]

/-- A longer one is written behind the buffer. -/
theorem listPushBuffer_overrun (beyond : 0x200 < (escaped lpStr).length) :
    listPushBuffer lpStr = none := by
  have stuck (state : Pushing) (inside : ∃ k ≤ lpStr.length, state = pushed lpStr k ∧
      place escapedChar lpStr k ≤ 0x200) :
      listPushPass lpStr state = none ∨
        ∃ next, listPushPass lpStr state = some (.again next) ∧
          ∃ k ≤ lpStr.length, next = pushed lpStr k ∧ place escapedChar lpStr k ≤ 0x200 := by
    obtain ⟨k, upTo, rfl, few⟩ := inside
    have bound : k < lpStr.length := by
      by_contra ended
      rw [show k = lpStr.length by omega, place_length, ← escaped_eq] at few
      omega
    rw [listPushPass_char bound]
    by_cases room : place escapedChar lpStr (k + 1) ≤ 0x200
    · exact .inr ⟨_, if_pos room, k + 1, bound, rfl, room⟩
    · exact .inl (if_neg room)
  exact Loop.run_stuck stuck _ ⟨0, Nat.zero_le _, rfl, Nat.zero_le _⟩

theorem escaped_noNul (noNul : 0 ∉ lpStr) : 0 ∉ escaped lpStr := by
  intro member
  obtain ⟨ch, inside, coded⟩ := List.mem_flatMap.mp member
  by_cases newline : ch = 0x0A
  · rw [if_pos newline] at coded
    exact absurd coded (by decide)
  · rw [if_neg newline, List.mem_singleton] at coded
    exact noNul (coded ▸ inside)

/-- `ListPush` writes only inside its buffer and leaves a zero there. -/
def StaysInside (lpStr : List UInt8) : Prop :=
  ∃ szTmpBuf, listPushBuffer lpStr = some szTmpBuf ∧ 0 ∈ szTmpBuf

theorem staysInside_iff (noNul : 0 ∉ lpStr) : StaysInside lpStr ↔ (escaped lpStr).length < 0x200 := by
  by_cases room : (escaped lpStr).length ≤ 0x200
  · have run := listPushBuffer_run room
    constructor
    · rintro ⟨szTmpBuf, written, ended⟩
      rw [run, Option.some.injEq] at written
      rw [← written, List.mem_append] at ended
      have zeros := ended.resolve_left (escaped_noNul noNul)
      have some_ := (List.mem_replicate.mp zeros).1
      omega
    · intro short
      exact ⟨_, run, List.mem_append_right _ (List.mem_replicate.mpr ⟨by omega, rfl⟩)⟩
  · refine iff_of_false ?_ (by omega)
    rintro ⟨szTmpBuf, written, -⟩
    rw [listPushBuffer_overrun (by omega)] at written
    cases written

/-- A comment stays inside the buffer exactly when its characters and its line breaks together
are fewer than 0x200. -/
theorem comment_staysInside_iff (comment : Comment) :
    StaysInside comment.szBuf ↔ comment.szBuf.length + comment.szBuf.count 0x0A ≤ 0x1FF := by
  rw [staysInside_iff comment.noNul, escaped_length]
  exact Nat.lt_succ_iff

/-- A comment of line breaks only. -/
theorem comment_staysInside_fails :
    ∃ comment : Comment, comment.szBuf = List.replicate 0x101 0x0A ∧ ¬ StaysInside comment.szBuf := by
  have noNul : (0 : UInt8) ∉ List.replicate 0x101 0x0A := by
    rw [List.mem_replicate]
    exact fun both => absurd both.2 (by decide)
  have short : (List.replicate 0x101 (0x0A : UInt8)).length ≤ 0x1FF := by
    rw [List.length_replicate]
    decide
  refine ⟨{ dwAddr := 0, szBuf := List.replicate 0x101 0x0A, noNul, short }, rfl, ?_⟩
  rw [staysInside_iff noNul, escaped_length, List.length_replicate, List.count_replicate_self]
  decide

theorem stringOf_append {text : List UInt8} (noNul : 0 ∉ text) (more : Nat) :
    stringOf (text ++ List.replicate (more + 1) 0) = some text := by
  have ended : (0 : UInt8) ∈ text ++ List.replicate (more + 1) 0 :=
    List.mem_append_right _ (List.mem_replicate.mpr ⟨Nat.succ_ne_zero more, rfl⟩)
  have other : ∀ ch ∈ text, decide (ch ≠ 0) = true := fun ch member =>
    decide_eq_true fun zero => noNul (zero ▸ member)
  rw [stringOf, if_pos ended, List.takeWhile_append_of_pos other, List.replicate_succ,
    List.takeWhile_cons_of_neg (by decide), List.append_nil]

/-- The string is the escaped text, where there is room for it and its zero. -/
theorem listPushString_eq (noNul : 0 ∉ lpStr) :
    listPushString lpStr =
      if (escaped lpStr).length < 0x200 then some (escaped lpStr) else none := by
  have clean := escaped_noNul noNul
  rw [listPushString]
  rcases Nat.lt_trichotomy (escaped lpStr).length 0x200 with short | full | beyond
  · obtain ⟨more, room⟩ : ∃ more, 0x200 - (escaped lpStr).length = more + 1 :=
      ⟨0x200 - (escaped lpStr).length - 1, by omega⟩
    rw [if_pos short, listPushBuffer_run (Nat.le_of_lt short), Option.bind_some, room]
    exact stringOf_append clean more
  · rw [if_neg (by omega), listPushBuffer_run (Nat.le_of_eq full), Option.bind_some, full,
      Nat.sub_self, List.replicate_zero, List.append_nil]
    exact if_neg clean
  · rw [if_neg (by omega), listPushBuffer_overrun beyond]
    rfl

theorem listPush_eq (noNul : 0 ∉ lpStr) (dwAddr : Nat) (vldData : List ListData) :
    listPush dwAddr lpStr vldData = (listPushString lpStr).map fun strValue =>
      vldData ++ [{ eaAddr := dwAddr, strValue }] := by
  rw [listPushString_eq noNul, listPush]
  split
  · rfl
  · rfl

/-- The text that a list shows, with every `\n` read as a line break. -/
def readBack : List UInt8 → List UInt8
  | [] => []
  | [ch] => [ch]
  | ch :: next :: rest =>
    if ch = 0x5C ∧ next = 0x6E then 0x0A :: readBack rest else ch :: readBack (next :: rest)

theorem readBack_pair (rest : List UInt8) :
    readBack (0x5C :: 0x6E :: rest) = 0x0A :: readBack rest := if_pos ⟨rfl, rfl⟩

theorem readBack_cons {ch : UInt8} {rest : List UInt8}
    (other : ¬ (ch = 0x5C ∧ rest.head? = some 0x6E)) :
    readBack (ch :: rest) = ch :: readBack rest := by
  cases rest with
  | nil => rfl
  | cons next rest =>
    rw [List.head?_cons, Option.some.injEq] at other
    exact if_neg other

@[simp] theorem escaped_cons (ch : UInt8) (rest : List UInt8) :
    escaped (ch :: rest) = escapedChar ch ++ escaped rest := rfl

theorem escaped_head (text : List UInt8) :
    (escaped text).head? = some 0x6E ↔ text.head? = some 0x6E := by
  cases text with
  | nil => rfl
  | cons ch rest =>
    rw [escaped_cons, escapedChar]
    by_cases newline : ch = 0x0A
    · simp [newline]
    · simp [newline]

theorem readBack_escaped (text : List UInt8) : readBack (escaped text) = readBack text := by
  induction text using readBack.induct with
  | case1 => rfl
  | case2 ch =>
    by_cases newline : ch = 0x0A
    · rw [newline]
      rfl
    · rw [escaped_cons, escapedChar, if_neg newline]
      rfl
  | case3 ch next rest pair ih =>
    obtain ⟨rfl, rfl⟩ := pair
    rw [readBack_pair, ← ih]
    exact readBack_pair (escaped rest)
  | case4 ch next rest other ih =>
    have apart : ¬ (ch = 0x5C ∧ (next :: rest).head? = some 0x6E) := by
      rw [List.head?_cons, Option.some.injEq]
      exact other
    rw [readBack_cons apart, ← ih]
    by_cases newline : ch = 0x0A
    · rw [escaped_cons ch, escapedChar, if_pos newline, newline]
      exact readBack_pair (escaped (next :: rest))
    · rw [escaped_cons ch, escapedChar, if_neg newline, List.singleton_append]
      rw [← escaped_head] at apart
      exact readBack_cons apart

theorem escaped_readBack (text : List UInt8) : escaped (readBack text) = escaped text := by
  induction text using readBack.induct with
  | case1 => rfl
  | case2 ch => rfl
  | case3 ch next rest pair ih =>
    obtain ⟨rfl, rfl⟩ := pair
    rw [readBack_pair, escaped_cons, ih]
    rfl
  | case4 ch next rest other ih =>
    rw [readBack, if_neg other, escaped_cons, ih, escaped_cons ch]

theorem escaped_eq_iff {first second : List UInt8} :
    escaped first = escaped second ↔ readBack first = readBack second := by
  constructor
  · intro same
    rw [← readBack_escaped first, same, readBack_escaped]
  · intro same
    rw [← escaped_readBack first, same, escaped_readBack]

/-- If both texts become the same string, they are the same. -/
def KeepsApart (first second : List UInt8) : Prop :=
  ∀ strValue, listPushString first = some strValue → listPushString second = some strValue →
    first = second

/-- The rows that the comments are collected into. -/
def listPushAll (comments : List Comment) : Option (List ListData) :=
  comments.foldlM (fun vldData comment => listPush comment.dwAddr comment.szBuf vldData) []

def Comment.row (comment : Comment) : ListData where
  eaAddr := comment.dwAddr
  strValue := escaped comment.szBuf

/-- The rows that are left are those of the comments whose text no earlier one has. -/
def DropsOnlyDuplicates (heap : Nat → Nat) (comments : List Comment) : Prop :=
  ∀ rows, listPushAll comments = some rows →
    distinctRows heap rows = some ((firsts Comment.szBuf comments).map Comment.row)

def Comment.Room (comment : Comment) : Prop :=
  comment.szBuf.length + comment.szBuf.count 0x0A ≤ 0x1FF

/-- Reading every `\n` as a line break confuses no two of them. -/
def Unmistakable (first second : List UInt8) : Prop :=
  readBack first = readBack second → first = second

theorem listPushString_room {comment : Comment} (room : comment.Room) :
    listPushString comment.szBuf = some (escaped comment.szBuf) := by
  rw [listPushString_eq comment.noNul, escaped_length, if_pos (Nat.lt_succ_of_le room)]

theorem keepsApart_iff (first second : Comment) :
    KeepsApart first.szBuf second.szBuf ↔
      (first.Room → second.Room → Unmistakable first.szBuf second.szBuf) := by
  constructor
  · intro apart roomy room alike
    refine apart (escaped first.szBuf) (listPushString_room roomy) ?_
    rw [listPushString_room room, escaped_eq_iff.mpr alike]
  · intro unmistakable strValue stored again
    have roomy : first.Room := by
      by_contra full
      rw [listPushString_eq first.noNul, escaped_length, if_neg fun short => full (Nat.le_of_lt_succ short)]
        at stored
      cases stored
    have room : second.Room := by
      by_contra full
      rw [listPushString_eq second.noNul, escaped_length,
        if_neg fun short => full (Nat.le_of_lt_succ short)] at again
      cases again
    rw [listPushString_room roomy] at stored
    rw [listPushString_room room] at again
    exact unmistakable roomy room (escaped_eq_iff.mp (Option.some.inj (stored.trans again.symm)))

theorem listPush_room {comment : Comment} (room : comment.Room) (vldData : List ListData) :
    listPush comment.dwAddr comment.szBuf vldData = some (vldData ++ [comment.row]) := by
  rw [listPush_eq comment.noNul, listPushString_room room]
  rfl

theorem listPushAll_eq {comments : List Comment} (room : ∀ comment ∈ comments, comment.Room) :
    listPushAll comments = some (comments.map Comment.row) := by
  induction comments using List.reverseRecOn with
  | nil => rfl
  | append_singleton comments comment ih =>
    have earlier := ih fun other member => room other (List.mem_append_left _ member)
    have last := listPush_room (room comment (by simp)) (comments.map Comment.row)
    rw [listPushAll] at earlier ⊢
    rw [List.foldlM_append, earlier, Option.bind_eq_bind, Option.bind_some, List.foldlM_cons, last,
      List.map_append]
    rfl

/-- A run that collects the comments has met none that is too long. -/
theorem room_of_listPushAll {comments : List Comment} {rows : List ListData}
    (collected : listPushAll comments = some rows) : ∀ comment ∈ comments, comment.Room := by
  induction comments using List.reverseRecOn generalizing rows with
  | nil => exact fun comment member => absurd member List.not_mem_nil
  | append_singleton comments comment ih =>
    rw [listPushAll, List.foldlM_append] at collected
    obtain ⟨before, earlier, last⟩ := Option.bind_eq_some_iff.mp collected
    obtain ⟨after, stored, -⟩ := Option.bind_eq_some_iff.mp last
    have room : comment.Room := by
      by_contra full
      change listPush comment.dwAddr comment.szBuf before = some after at stored
      rw [listPush_eq comment.noNul, listPushString_eq comment.noNul, escaped_length,
        if_neg fun short => full (Nat.le_of_lt_succ short)] at stored
      cases stored
    intro other member
    rcases List.mem_append.mp member with first | same
    · exact ih earlier other first
    · rw [List.mem_singleton.mp same]
      exact room

theorem dropsOnlyDuplicates_iff (heap : Nat → Nat) (comments : List Comment) :
    DropsOnlyDuplicates heap comments ↔
      ((∀ comment ∈ comments, comment.Room) → ∀ first ∈ comments, ∀ second ∈ comments,
        Unmistakable first.szBuf second.szBuf) := by
  have chosen := firsts_map ListData.strValue Comment.row comments
  constructor
  · intro drops room first inFirst second inSecond alike
    have left := drops _ (listPushAll_eq room)
    rw [distinctRows_eq, chosen, Option.some.injEq] at left
    exact injective_of_firsts escaped Comment.szBuf Comment.row ListData.strValue (fun _ => rfl) left
      inFirst inSecond
      (escaped_eq_iff.mpr alike)
  · intro unmistakable rows collected
    have room := room_of_listPushAll collected
    rw [listPushAll_eq room, Option.some.injEq] at collected
    subst collected
    rw [distinctRows_eq, chosen]
    congr 2
    refine firsts_congr fun first inFirst second inSecond => ?_
    constructor
    · intro same
      exact unmistakable room first inFirst second inSecond (escaped_eq_iff.mp same)
    · intro same
      exact congrArg escaped same

/-- Two comments that both fit are kept apart exactly when they still differ once every `\n` in
them is read as a line break, and the list loses a comment that is no duplicate exactly when
two of its comments are not kept apart. -/
theorem escaping_iff (first second : Comment) (heap : Nat → Nat) (comments : List Comment) :
    (KeepsApart first.szBuf second.szBuf ↔
      (first.Room → second.Room → Unmistakable first.szBuf second.szBuf)) ∧
    (DropsOnlyDuplicates heap comments ↔
      ((∀ comment ∈ comments, comment.Room) → ∀ first ∈ comments, ∀ second ∈ comments,
        Unmistakable first.szBuf second.szBuf)) :=
  ⟨keepsApart_iff first second, dropsOnlyDuplicates_iff heap comments⟩

/-- A line break, and a backslash with an `n`. -/
theorem escaping_fails :
    listPushString [0x61, 0x0A, 0x62] = some [0x61, 0x5C, 0x6E, 0x62] ∧
      listPushString [0x61, 0x5C, 0x6E, 0x62] = some [0x61, 0x5C, 0x6E, 0x62] ∧
      ¬ KeepsApart [0x61, 0x0A, 0x62] [0x61, 0x5C, 0x6E, 0x62] := by
  have broken : listPushString [0x61, 0x0A, 0x62] = some [0x61, 0x5C, 0x6E, 0x62] := by
    rw [listPushString_eq (by decide)]
    rfl
  have spelled : listPushString [0x61, 0x5C, 0x6E, 0x62] = some [0x61, 0x5C, 0x6E, 0x62] := by
    rw [listPushString_eq (by decide)]
    rfl
  refine ⟨broken, spelled, ?_⟩
  intro apart
  exact absurd (apart _ broken spelled) (by decide)

end IDAPlugins.CommentList
