import RealmFormal.Go.Bytes

/-!
# Buffered reading

`bufio.Reader` over a connection whose bytes arrive in pieces. Only the bytes
between the two indices of the buffer matter, because `fill` moves them to the
front before it reads. What `ReadSlice` returns depends on the bytes alone and
not on the pieces (`readSlice_eq`).
-/

namespace Go.Bufio
set_option autoImplicit false

/-! ## Lines -/

/-- The first line with its newline, and what follows it. -/
def cutLine : Bytes → Option (Bytes × Bytes)
  | [] => none
  | b :: s => if b = 10 then some ([b], s) else (cutLine s).map fun cut => (b :: cut.1, cut.2)

/-- All lines with their newlines; the last one may have none. -/
def lines : Bytes → List Bytes
  | [] => []
  | b :: s =>
    if b = 10 then [b] :: lines s
    else
      match lines s with
      | [] => [[b]]
      | line :: rest => (b :: line) :: rest

theorem cutLine_append {s line rest : Bytes} (h : cutLine s = some (line, rest)) (t : Bytes) :
    cutLine (s ++ t) = some (line, rest ++ t) := by
  induction s generalizing line rest with
  | nil => cases h
  | cons b s ih =>
    rw [List.cons_append, cutLine]
    rw [cutLine] at h
    split
    · rename_i hb
      rw [if_pos hb] at h
      cases h
      rfl
    · rename_i hb
      rw [if_neg hb] at h
      obtain ⟨⟨l, r⟩, hcut, heq⟩ := Option.map_eq_some_iff.mp h
      cases heq
      rw [ih hcut]
      rfl

theorem cutLine_eq_append {s line rest : Bytes} (h : cutLine s = some (line, rest)) :
    s = line ++ rest := by
  induction s generalizing line rest with
  | nil => cases h
  | cons b s ih =>
    rw [cutLine] at h
    split at h
    · cases h
      rfl
    · obtain ⟨⟨l, r⟩, hcut, heq⟩ := Option.map_eq_some_iff.mp h
      cases heq
      rw [ih hcut]
      rfl

/-- No line ends in a part before the first newline. -/
theorem cutLine_longer {s t line rest : Bytes} (hs : cutLine s = none)
    (h : cutLine (s ++ t) = some (line, rest)) : s.length < line.length := by
  induction s generalizing line with
  | nil =>
    cases line with
    | nil => cases t with
      | nil => cases h
      | cons b t =>
        rw [List.nil_append, cutLine] at h
        split at h
        · cases h
        · obtain ⟨cut, -, heq⟩ := Option.map_eq_some_iff.mp h
          cases heq
    | cons b line => exact Nat.succ_pos _
  | cons b s ih =>
    rw [cutLine] at hs
    split at hs
    · cases hs
    · rename_i hb
      rw [List.cons_append, cutLine, if_neg hb] at h
      obtain ⟨⟨l, r⟩, hcut, heq⟩ := Option.map_eq_some_iff.mp h
      cases heq
      have hlt := ih (Option.map_eq_none_iff.mp hs) hcut
      simpa using hlt

theorem lines_of_cut {s line rest : Bytes} (h : cutLine s = some (line, rest)) :
    lines s = line :: lines rest := by
  induction s generalizing line rest with
  | nil => cases h
  | cons b s ih =>
    rw [cutLine] at h
    rw [lines]
    split
    · rename_i hb
      rw [if_pos hb] at h
      cases h
      rfl
    · rename_i hb
      rw [if_neg hb] at h
      obtain ⟨⟨l, r⟩, hcut, heq⟩ := Option.map_eq_some_iff.mp h
      cases heq
      rw [ih hcut]

theorem lines_of_no_cut {s : Bytes} (h : cutLine s = none) :
    lines s = if s = [] then [] else [s] := by
  induction s with
  | nil => rfl
  | cons b s ih =>
    rw [cutLine] at h
    rw [lines]
    split
    · rename_i hb
      rw [if_pos hb] at h
      cases h
    · rename_i hb
      rw [if_neg hb] at h
      rw [ih (Option.map_eq_none_iff.mp h)]
      by_cases hs : s = []
      · simp [hs]
      · simp [hs]

theorem cutLine_line {s line rest : Bytes} (h : cutLine s = some (line, rest)) :
    cutLine line = some (line, []) := by
  induction s generalizing line rest with
  | nil => cases h
  | cons b s ih =>
    rw [cutLine] at h
    split at h
    · rename_i hb
      cases h
      rw [cutLine, if_pos hb]
    · rename_i hb
      obtain ⟨⟨l, r⟩, hcut, heq⟩ := Option.map_eq_some_iff.mp h
      cases heq
      rw [cutLine, if_neg hb, ih hcut]
      rfl

/-- Lines with their newlines are the lines of what they make up. -/
theorem lines_flatten {parts : List Bytes} (h : ∀ line ∈ parts, cutLine line = some (line, [])) :
    lines parts.flatten = parts := by
  induction parts with
  | nil => rfl
  | cons line parts ih =>
    rw [List.forall_mem_cons] at h
    rw [List.flatten_cons, lines_of_cut (cutLine_append h.1 _), List.nil_append, ih h.2]

/-- Every line before another one has its newline. -/
theorem cutLine_of_lines {s last : Bytes} {before after : List Bytes}
    (h : lines s = before ++ last :: after) : ∀ line ∈ before, cutLine line = some (line, []) := by
  induction before generalizing s with
  | nil => simp
  | cons first before ih =>
    cases hcut : cutLine s with
    | none =>
      rw [lines_of_no_cut hcut] at h
      split at h <;> simp at h
    | some cut =>
      obtain ⟨line, rest⟩ := cut
      rw [lines_of_cut hcut, List.cons_append] at h
      obtain ⟨rfl, hrest⟩ := List.cons.inj h
      rw [List.forall_mem_cons]
      exact ⟨cutLine_line hcut, ih hrest⟩

theorem flatten_lines (s : Bytes) : (lines s).flatten = s := by
  induction s with
  | nil => rfl
  | cons b s ih =>
    rw [lines]
    split
    · rw [List.flatten_cons, ih]
      rfl
    · cases hs : lines s with
      | nil =>
        rw [hs] at ih
        rw [← ih]
        rfl
      | cons line rest =>
        rw [hs] at ih
        rw [← ih]
        rfl

theorem ne_nil_of_mem_lines {s line : Bytes} (h : line ∈ lines s) : line ≠ [] := by
  induction s generalizing line with
  | nil => cases h
  | cons b s ih =>
    rw [lines] at h
    split at h
    · rcases List.mem_cons.mp h with rfl | hrest
      · exact List.cons_ne_nil _ _
      · exact ih hrest
    · split at h
      · rw [List.mem_singleton.mp h]
        exact List.cons_ne_nil _ _
      · rename_i first rest hs
        rcases List.mem_cons.mp h with rfl | hrest
        · exact List.cons_ne_nil _ _
        · exact ih (hs ▸ List.mem_cons_of_mem _ hrest)

/-! ## The reader -/

/-- A connection: what still arrives, the error after it, and how many bytes each read may
return, of which there is at least one. -/
structure Conn where
  unread : Bytes
  final : String
  sizes : Nat → Nat
  reads : Nat

/-- `Read` into `room` bytes; nothing is returned with the error at the end only. -/
def Conn.read (c : Conn) (room : Nat) : Bytes × Conn :=
  let n := min room (max 1 (c.sizes c.reads))
  (c.unread.take n, { c with unread := c.unread.drop n, reads := c.reads + 1 })

/-- `pending` says that `err` is set. -/
structure Reader where
  size : Nat
  buffered : Bytes
  conn : Conn
  pending : Bool

inductive ReadError where
  | bufferFull
  | conn (text : String)
  deriving DecidableEq

def newReaderSize (conn : Conn) (size : Nat) : Reader := ⟨size, [], conn, false⟩

def Reader.fill (r : Reader) : Reader :=
  let read := r.conn.read (r.size - r.buffered.length)
  { r with
    buffered := r.buffered ++ read.1
    conn := read.2
    pending := decide (read.1 = []) }

/-- The loop of `ReadSlice('\n')`. Every turn adds a byte to the buffer or ends the loop, so that
the turns are limited by the size of the buffer. -/
def Reader.readSliceLoop : Nat → Reader → Bytes × Option ReadError × Reader
  | turns, r =>
    match cutLine r.buffered with
    | some (line, rest) => (line, none, { r with buffered := rest })
    | none =>
      if r.pending then
        (r.buffered, some (.conn r.conn.final), { r with buffered := [], pending := false })
      else
        match turns with
        | 0 => (r.buffered, some .bufferFull, { r with buffered := [] })
        | turns + 1 =>
          if r.buffered.length ≥ r.size then
            (r.buffered, some .bufferFull, { r with buffered := [] })
          else readSliceLoop turns r.fill

def Reader.readSlice (r : Reader) : Bytes × Option ReadError × Reader :=
  r.readSliceLoop (r.size + 1)

/-- `Read` into a buffer of `n` bytes, `none` for the error at the end. -/
def Reader.read (r : Reader) (n : Nat) : Option Bytes × Reader :=
  if r.buffered ≠ [] then (some (r.buffered.take n), { r with buffered := r.buffered.drop n })
  else if r.pending then (none, { r with pending := false })
  else if n ≥ r.size then
    let read := r.conn.read n
    (if read.1 = [] then none else some read.1, { r with conn := read.2 })
  else
    let read := r.conn.read r.size
    (if read.1 = [] then none else some (read.1.take n),
      { r with buffered := read.1.drop n, conn := read.2 })

/-- Everything that the reader will still deliver. -/
def Reader.content (r : Reader) : Bytes := r.buffered ++ r.conn.unread

/-- What `ReadSlice` makes of these bytes: a line, a full buffer or the end. -/
def sliceOf (size : Nat) (final : String) (s : Bytes) : Bytes × Option ReadError × Bytes :=
  match cutLine s with
  | some (line, rest) =>
    if line.length ≤ size then (line, none, rest) else (s.take size, some .bufferFull, s.drop size)
  | none =>
    if size ≤ s.length then (s.take size, some .bufferFull, s.drop size)
    else (s, some (.conn final), [])

theorem sliceOf_append (size : Nat) (final : String) (s : Bytes) :
    (sliceOf size final s).1 ++ (sliceOf size final s).2.2 = s := by
  unfold sliceOf
  split
  · rename_i line rest hcut
    split
    · exact (cutLine_eq_append hcut).symm
    · exact List.take_append_drop _ _
  · split
    · exact List.take_append_drop _ _
    · exact List.append_nil _

theorem sliceOf_line {size : Nat} {final : String} {s : Bytes}
    (h : (sliceOf size final s).2.1 = none) : 0 < (sliceOf size final s).1.length := by
  unfold sliceOf at h ⊢
  split at h
  · rename_i line rest hcut
    split at h
    · rename_i hfits
      rw [if_pos hfits]
      apply List.length_pos_iff.mpr
      rintro rfl
      cases cutLine_line hcut
    · cases h
  · split at h <;> cases h

/-- `ReadSlice` has taken what `sliceOf` says, from a buffer that held it all. -/
structure Sliced (r : Reader) (result : Bytes × Option ReadError × Reader) : Prop where
  line : result.1 = (sliceOf r.size r.conn.final r.content).1
  err : result.2.1 = (sliceOf r.size r.conn.final r.content).2.1
  content : result.2.2.content = (sliceOf r.size r.conn.final r.content).2.2
  size : result.2.2.size = r.size
  final : result.2.2.conn.final = r.conn.final
  pending : result.2.2.pending = false
  fits : result.1.length + result.2.2.buffered.length ≤ r.size

section Reader
variable {r : Reader}

theorem Conn.read_append (c : Conn) (room : Nat) : (c.read room).1 ++ (c.read room).2.unread =
    c.unread := List.take_append_drop _ _

theorem Conn.read_length (c : Conn) (room : Nat) : (c.read room).1.length ≤ room := by
  rw [Conn.read, List.length_take]
  omega

theorem Conn.read_nil {c : Conn} {room : Nat} (hroom : 0 < room) (h : (c.read room).1 = []) :
    c.unread = [] := by
  rw [Conn.read] at h
  rcases List.take_eq_nil_iff.mp h with hn | hn
  · omega
  · exact hn

theorem fill_content (r : Reader) : r.fill.content = r.content := by
  rw [Reader.content, Reader.content, Reader.fill, List.append_assoc, Conn.read_append]

/-- The state in the loop. An error stands only at the end of the connection, with a buffer that
has room and no line. -/
structure Reader.Good (r : Reader) : Prop where
  fits : r.buffered.length ≤ r.size
  ended : r.pending = true →
    r.conn.unread = [] ∧ r.buffered.length < r.size ∧ cutLine r.buffered = none

theorem good_fill (hroom : r.buffered.length < r.size)
    (hline : cutLine r.buffered = none) : r.fill.Good where
  fits := by
    have hlen := r.conn.read_length (r.size - r.buffered.length)
    rw [Reader.fill, List.length_append]
    dsimp only
    omega
  ended := by
    intro hpending
    have hread : (r.conn.read (r.size - r.buffered.length)).1 = [] := of_decide_eq_true hpending
    have hunread := Conn.read_nil (by omega) hread
    simp only [Reader.fill, hread, List.append_nil]
    refine ⟨?_, hroom, hline⟩
    rw [Conn.read, hunread, List.drop_nil]

theorem sliced_line (h : r.Good) {line rest : Bytes}
    (hline : cutLine r.buffered = some (line, rest)) :
    Sliced r (line, none, { r with buffered := rest }) := by
  have hcut : cutLine r.content = some (line, rest ++ r.conn.unread) := cutLine_append hline _
  have hlen := congrArg List.length (cutLine_eq_append hline)
  rw [List.length_append] at hlen
  have hfits := h.fits
  have hle : line.length ≤ r.size := by omega
  have hslice : sliceOf r.size r.conn.final r.content = (line, none, rest ++ r.conn.unread) := by
    simp only [sliceOf, hcut, if_pos hle]
  refine ⟨by rw [hslice], by rw [hslice], by rw [hslice]; rfl, rfl, rfl, ?_, ?_⟩
  · cases hpending : r.pending with
    | false => rfl
    | true =>
      have hnone := (h.ended hpending).2.2
      rw [hline] at hnone
      cases hnone
  · dsimp only
    omega

theorem sliced_end (h : r.Good) (hpending : r.pending = true) :
    Sliced r (r.buffered, some (.conn r.conn.final),
      { r with buffered := [], pending := false }) := by
  obtain ⟨hunread, hroom, hnone⟩ := h.ended hpending
  have hcontent : r.content = r.buffered := by rw [Reader.content, hunread, List.append_nil]
  have hslice : sliceOf r.size r.conn.final r.content =
      (r.buffered, some (.conn r.conn.final), []) := by
    simp only [sliceOf, hcontent, hnone, if_neg (Nat.not_le.mpr hroom)]
  refine ⟨by rw [hslice], by rw [hslice], ?_, rfl, rfl, rfl, h.fits⟩
  rw [hslice, Reader.content]
  exact hunread

theorem sliced_full (h : r.Good) (hnone : cutLine r.buffered = none)
    (hfull : r.size ≤ r.buffered.length) (hpending : r.pending = false) :
    Sliced r (r.buffered, some .bufferFull, { r with buffered := [] }) := by
  have hsize : r.buffered.length = r.size := Nat.le_antisymm h.fits hfull
  have hslice : sliceOf r.size r.conn.final r.content =
      (r.buffered, some .bufferFull, r.conn.unread) := by
    have htake : r.content.take r.size = r.buffered := by
      rw [Reader.content, ← hsize, List.take_left]
    have hdrop : r.content.drop r.size = r.conn.unread := by
      rw [Reader.content, ← hsize, List.drop_left]
    have hlong : r.size ≤ r.content.length := by
      rw [Reader.content, List.length_append]
      omega
    unfold sliceOf
    split
    · rename_i line rest hcut
      have hlonger := cutLine_longer hnone hcut
      rw [if_neg (by omega), htake, hdrop]
    · rw [if_pos hlong, htake, hdrop]
  refine ⟨by rw [hslice], by rw [hslice], by rw [hslice]; rfl, rfl, rfl, hpending, ?_⟩
  dsimp only [List.length_nil]
  omega

/-- A turn that reads more: the bytes and the limits stay. -/
theorem Sliced.of_fill {result : Bytes × Option ReadError × Reader} (h : Sliced r.fill result) :
    Sliced r result := by
  obtain ⟨hline, herr, hcontent, hsize, hfinal, hpending, hfits⟩ := h
  rw [fill_content] at hline herr hcontent
  exact ⟨hline, herr, hcontent, hsize, hfinal, hpending, hfits⟩

theorem readSliceLoop_sliced {turns : Nat} (h : r.Good)
    (hturns : r.pending = false → r.size ≤ turns + r.buffered.length) :
    Sliced r (r.readSliceLoop turns) := by
  induction turns generalizing r with
  | zero =>
    unfold Reader.readSliceLoop
    split
    · exact sliced_line h ‹_›
    split
    · exact sliced_end h ‹_›
    · rename_i hnone hpending
      rw [Bool.not_eq_true] at hpending
      exact sliced_full h hnone (by have := hturns hpending; omega) hpending
  | succ turns ih =>
    unfold Reader.readSliceLoop
    split
    · exact sliced_line h ‹_›
    split
    · exact sliced_end h ‹_›
    rename_i hnone hpending
    rw [Bool.not_eq_true] at hpending
    dsimp only
    split
    · rename_i hfull
      exact sliced_full h hnone hfull hpending
    · rename_i hroom
      refine Sliced.of_fill (ih (good_fill (by omega) hnone) ?_)
      intro hmore
      have hread : (r.conn.read (r.size - r.buffered.length)).1 ≠ [] := of_decide_eq_false hmore
      have hpos := List.length_pos_iff.mpr hread
      have hlimit := hturns hpending
      simp only [Reader.fill, List.length_append]
      omega

/-- What `ReadSlice` returns does not depend on the pieces in which the bytes arrive. -/
theorem readSlice_sliced (hfits : r.buffered.length ≤ r.size) (hpending : r.pending = false) :
    Sliced r r.readSlice := by
  have hgood : r.Good := ⟨hfits, fun h => by rw [hpending] at h; cases h⟩
  exact readSliceLoop_sliced hgood fun _ => by omega

/-- What is left after a slice. Only the buffer has been read from the connection beyond it. -/
theorem Sliced.length {result : Bytes × Option ReadError × Reader} (h : Sliced r result) :
    r.content.length = result.1.length + result.2.2.content.length ∧
      r.content.length ≤ r.size + result.2.2.conn.unread.length := by
  have happend := congrArg List.length (sliceOf_append r.size r.conn.final r.content)
  have hcontent : result.2.2.content.length =
      result.2.2.buffered.length + result.2.2.conn.unread.length := List.length_append
  have hfits := h.fits
  rw [List.length_append, ← h.line, ← h.content] at happend
  omega

/-! ## Reading to the end -/

/-- A sequence of reads into buffers of these lengths: what they return, and whether the last
one reported the end. -/
def Reader.drain : Reader → List Nat → Bytes × Bool × Reader
  | r, [] => ([], false, r)
  | r, n :: rest =>
    match r.read n with
    | (none, r) => ([], true, r)
    | (some got, r) =>
      let drained := r.drain rest
      (got ++ drained.1, drained.2)

/-- The reader delivers `s`: any reads return the front of it, and enough of them all of it. -/
def Reader.Delivers (r : Reader) (s : Bytes) : Prop :=
  ∀ lengths : List Nat, (∀ n ∈ lengths, 0 < n) →
    (r.drain lengths).1 <+: s ∧
      (s.length < lengths.length → (r.drain lengths).1 = s ∧ (r.drain lengths).2.1 = true)

/-- One read: some bytes from the front, or the end. -/
theorem read_cases {n : Nat} (hn : 0 < n) (hsize : 0 < r.size) (hpending : r.pending = false) :
    (∃ got q, r.read n = (some got, q) ∧ got ++ q.content = r.content ∧ got ≠ [] ∧
      q.size = r.size ∧ q.pending = false) ∨
    ∃ q, r.read n = (none, q) ∧ r.content = [] := by
  have hdirect : ∀ room, 0 < room → (r.conn.read room).1 = [] → r.buffered = [] →
      r.content = [] := by
    intro room hroom hread hbuffered
    rw [Reader.content, hbuffered, Conn.read_nil hroom hread, List.append_nil]
  unfold Reader.read
  split
  · rename_i hbuffered
    refine .inl ⟨_, _, rfl, ?_, ?_, rfl, hpending⟩
    · rw [Reader.content, ← List.append_assoc, List.take_append_drop, Reader.content]
    · intro hnil
      rcases List.take_eq_nil_iff.mp hnil with hzero | hempty
      · omega
      · exact hbuffered hempty
  rename_i hbuffered
  rw [ne_eq, not_not] at hbuffered
  rw [hpending, if_neg Bool.false_ne_true]
  split
  · dsimp only
    split
    · rename_i hread
      exact .inr ⟨_, rfl, hdirect n hn hread hbuffered⟩
    · rename_i hread
      refine .inl ⟨_, _, rfl, ?_, hread, rfl, rfl⟩
      rw [Reader.content, Reader.content, hbuffered, List.nil_append, List.nil_append,
        Conn.read_append]
  · dsimp only
    split
    · rename_i hread
      exact .inr ⟨_, rfl, hdirect r.size hsize hread hbuffered⟩
    · rename_i hread
      refine .inl ⟨_, _, rfl, ?_, ?_, rfl, rfl⟩
      · rw [Reader.content, Reader.content, ← List.append_assoc, List.take_append_drop, hbuffered,
          List.nil_append, Conn.read_append]
      · intro hnil
        rcases List.take_eq_nil_iff.mp hnil with hzero | hempty
        · omega
        · exact hread hempty

theorem drain_spec (lengths : List Nat) (hlengths : ∀ n ∈ lengths, 0 < n) (hsize : 0 < r.size)
    (hpending : r.pending = false) :
    (r.drain lengths).1 <+: r.content ∧
      ((r.drain lengths).2.1 = true → (r.drain lengths).1 = r.content) ∧
      ((r.drain lengths).2.1 = false → lengths.length ≤ (r.drain lengths).1.length) := by
  induction lengths generalizing r with
  | nil => exact ⟨List.nil_prefix, nofun, fun _ => Nat.le_refl _⟩
  | cons n rest ih =>
    rw [List.forall_mem_cons] at hlengths
    unfold Reader.drain
    rcases read_cases hlengths.1 hsize hpending with ⟨got, q, hread, hcontent, hgot, hq, hp⟩ | hend
    · obtain ⟨hfront, hall, hmore⟩ := ih hlengths.2 (hq ▸ hsize) hp
      rw [hread, ← hcontent]
      refine ⟨List.prefix_append_right_inj got |>.mpr hfront, ?_, ?_⟩
      · intro hended
        exact congrArg (got ++ ·) (hall hended)
      · intro hended
        have hpos := List.length_pos_iff.mpr hgot
        have hrest := hmore hended
        dsimp only
        rw [List.length_cons, List.length_append]
        omega
    · obtain ⟨q, hread, hempty⟩ := hend
      rw [hread, hempty]
      exact ⟨List.nil_prefix, fun _ => rfl, nofun⟩

/-- A reader delivers its content and nothing else. -/
theorem delivers_iff (hsize : 0 < r.size) (hpending : r.pending = false) {s : Bytes} :
    r.Delivers s ↔ s = r.content := by
  constructor
  · intro h
    have hones : ∀ n ∈ List.replicate (s.length + r.content.length + 1) 1, 0 < n := by
      intro n hn
      rw [List.eq_of_mem_replicate hn]
      exact Nat.one_pos
    have hall := (h _ hones).2 (by rw [List.length_replicate]; omega)
    rw [← hall.1]
    exact (drain_spec _ hones hsize hpending).2.1 hall.2
  · rintro rfl lengths hlengths
    obtain ⟨hfront, hall, hmore⟩ := drain_spec lengths hlengths hsize hpending
    refine ⟨hfront, ?_⟩
    intro hmany
    cases hended : (r.drain lengths).2.1 with
    | true => exact ⟨hall hended, rfl⟩
    | false =>
      have hlong := hmore hended
      have hshort := hfront.length_le
      omega

end Reader

end Go.Bufio
