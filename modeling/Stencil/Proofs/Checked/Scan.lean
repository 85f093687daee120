import Stencil.Proofs.Checked.Slice
import Stencil.Proofs.Scan.Walk

/-!
# Looking for a block by bytes

`Checked.scan` looks for a block as a program does that names places by bytes. It goes through a
template from one mark to the next with a cursor: the number of open blocks, the byte where it goes
on, and the bytes of the `else` tag of the block once it is found. At the closer it cuts the parts
of the block out of the template.

The cursor `Follows` what lies behind it: the search for the closer, and that for the `else` tag, go
on from the cursor as from the beginning. One turn of the loop keeps this or ends the loop with what
the searches give (`Cursor.Follows.turn_cases`), so the loop ends with it (`closeBlock_eq`). No cut
fails, and no closer is counted that is not matched by an opener (`Checked.scan_eq`).
-/

namespace Stencil

/-- A block as it stands in a template: its parts, the byte where it begins and the byte after
it. -/
structure BlockAt where
  expr : Text
  body : Text
  elseBody : Option Text
  start : Nat
  stop : Nat
deriving DecidableEq

/-- What looking for a block by bytes finds. -/
inductive ScanAt where
  | absent
  | unmatched (start : Nat)
  | found (block : BlockAt)
deriving DecidableEq

/-- The parts of a block and its bytes. -/
def Block.located (b : Block) : BlockAt := ⟨b.expr, b.body, b.elseBody, b.start, b.stop⟩

/-- What is found, with its bytes. -/
def Scan.located : Scan → ScanAt
  | absent => .absent
  | unmatched before => .unmatched (Text.utf8Length before)
  | found b => .found b.located

namespace Checked

/-! ## The loop -/

/-- Where the loop is that looks for a closer. -/
structure Cursor where
  /-- The number of blocks that are open. -/
  depth : Nat
  /-- The byte where the loop goes on. -/
  place : Nat
  /-- The bytes between which the `else` tag of the block stands. -/
  elseSpan : Option (Nat × Nat)

/-- What one turn of the loop comes to. -/
inductive Turn where
  | further (s : Cursor)
  | unmatched
  | closed (body : Text) (elseBody : Option Text) (stop : Nat)

/-- The parts of a block, from the byte after the tag of its opener to that of its closer. -/
def blockParts (t : Text) (bodyStart : Nat) (elseSpan : Option (Nat × Nat)) (bodyStop : Nat) :
    Checked (Text × Option Text) :=
  match elseSpan with
  | some (elseStart, elseStop) => do
    let body ← slice t bodyStart elseStart
    let elseBody ← slice t elseStop bodyStop
    return (body, some elseBody)
  | none => do
    let body ← slice t bodyStart bodyStop
    return (body, none)

/-- A turn of the loop at a mark that stands at a byte. -/
def Cursor.meet (d : Directive) (t : Text) (bodyStart : Nat) (s : Cursor) (place : Nat)
    (m : Mark) : Checked Turn :=
  let after := place + Text.utf8Length (m.text d)
  match m with
  | .opens => return .further { s with depth := s.depth + 1, place := after }
  | .splits =>
    -- Only the first tag of the block itself counts.
    let elseSpan := if s.depth = 1 ∧ s.elseSpan = none then some (place, after) else s.elseSpan
    return .further { s with place := after, elseSpan }
  | .closes => do
    let depth ← subtract s.depth 1
    if depth = 0 then
      let (body, elseBody) ← blockParts t bodyStart s.elseSpan place
      return .closed body elseBody after
    else return .further { s with depth, place := after }

/-- A turn that does not end the loop leaves the cursor behind the mark. -/
theorem place_of_meet {d : Directive} {t : Text} {bodyStart place : Nat} {s s' : Cursor} {m : Mark}
    (h : s.meet d t bodyStart place m = .ok (.further s')) :
    s'.place = place + Text.utf8Length (m.text d) := by
  cases m with
  | opens =>
    cases h
    rfl
  | splits =>
    cases h
    rfl
  | closes =>
    obtain ⟨depth, -, h⟩ := bind_eq_ok_iff.1 h
    split at h
    · obtain ⟨parts, -, h⟩ := bind_eq_ok_iff.1 h
      cases h
    · cases h
      rfl

/-- A turn of the loop: it goes to the next mark. -/
def turn (d : Directive) (t : Text) (bodyStart : Nat) (s : Cursor) : Checked Turn := do
  let rest ← slice t s.place (Text.utf8Length t)
  match findFirst (Mark.text d) (Mark.all d) rest with
  | none => return .unmatched
  | some (offset, m) => s.meet d t bodyStart (s.place + offset) m

/-- A turn that does not end the loop moves the cursor on within the template. -/
theorem place_lt_of_turn {d : Directive} {t : Text} {bodyStart : Nat} {s s' : Cursor}
    (h : turn d t bodyStart s = .ok (.further s')) :
    s.place < s'.place ∧ s'.place ≤ Text.utf8Length t := by
  obtain ⟨rest, hslice, h⟩ := bind_eq_ok_iff.1 h
  obtain ⟨a, b, ht, hplace, -⟩ := slice_eq_ok_iff.1 hslice
  split at h
  · cases h
  · next offset m hfirst =>
    obtain ⟨-, g, r, hrest, hoffset, -⟩ := exists_of_findFirst_eq_some hfirst
    have hpos : Text.utf8Length (m.text d) ≠ 0 := fun h0 =>
      Mark.text_ne_nil d m (Text.utf8Length_eq_zero_iff.1 h0)
    rw [place_of_meet h, ht, hrest]
    simp only [Text.utf8Length_append]
    omega

/-- The parts of the block whose body begins at a byte, and the byte after it. -/
def closeBlock (d : Directive) (t : Text) (bodyStart : Nat) (s : Cursor) :
    Checked (Option (Text × Option Text × Nat)) :=
  match _h : turn d t bodyStart s with
  | .ok (.further s') => closeBlock d t bodyStart s'
  | .ok .unmatched => .ok none
  | .ok (.closed body elseBody stop) => .ok (some (body, elseBody, stop))
  | .error p => .error p
termination_by Text.utf8Length t - s.place
decreasing_by
  have hplace := place_lt_of_turn _h
  omega

/-- The loop is a turn, and what comes after it. -/
theorem closeBlock_eq_turn (d : Directive) (t : Text) (bodyStart : Nat) (s : Cursor) :
    closeBlock d t bodyStart s = turn d t bodyStart s >>= fun
      | .further s' => closeBlock d t bodyStart s'
      | .unmatched => .ok none
      | .closed body elseBody stop => .ok (some (body, elseBody, stop)) := by
  rw [closeBlock]
  split
  · next h => rw [h, ok_bind]
  · next h => rw [h, ok_bind]
  · next h => rw [h, ok_bind]
  · next h =>
    rw [h]
    rfl

/-- Looks for the first block of a kind. -/
def scan (d : Directive) (t : Text) : Checked ScanAt :=
  match find d.opener t with
  | none => return .absent
  | some start => do
    let rest ← slice t start (Text.utf8Length t)
    match (Text.after? d.opener rest).bind (splitTag? d) with
    | none => return .unmatched start
    | some (inner, _) =>
      let bodyStart := start + Text.utf8Length (d.opener ++ inner ++ tagEnd)
      match ← closeBlock d t bodyStart ⟨1, bodyStart, none⟩ with
      | none => return .unmatched start
      | some (body, elseBody, stop) =>
        return .found ⟨Text.trim inner, body, elseBody, start, stop⟩

/-! ## What the cursor follows -/

/-- What a cursor knows of the `else` tag after a part `p` of the content, which begins at a byte
and leaves `n` nested blocks open. -/
inductive ElseSpan (d : Directive) (start : Nat) (p : Text) (n : Nat) : Option (Nat × Nat) → Prop
  /-- The content of an `#each` block has no parts. -/
  | each (hd : d = .each) : ElseSpan d start p n none
  /-- The tag is not in the part: the search goes on behind it. -/
  | ahead (hd : d = .cond)
      (helse : ∀ s, splitElse? 0 (p ++ s) = (splitElse? n s).map fun (a, b) => (p ++ a, b)) :
      ElseSpan d start p n none
  /-- The tag is in the part, between two bytes. -/
  | behind (body q : Text) (i j : Nat) (hd : d = .cond) (hp : p = body ++ elseTag ++ q)
      (hi : start + Text.utf8Length body = i) (hj : i + Text.utf8Length elseTag = j)
      (helse : ∀ s, splitElse? 0 (p ++ s) = some (body, q ++ s)) :
      ElseSpan d start p n (some (i, j))

/-- A cursor stands behind a part of the content that leaves `n` nested blocks open. -/
structure Cursor.Follows (s : Cursor) (d : Directive) (start : Nat) (p : Text) (n : Nat) :
    Prop where
  depth : s.depth = n + 1
  place : start + Text.utf8Length p = s.place
  closer : ∀ r, splitCloser? d 0 (p ++ r) = (splitCloser? d n r).map fun (a, b) => (p ++ a, b)
  elseSpan : ElseSpan d start p n s.elseSpan

/-- The cursor with which the loop begins has nothing behind it. -/
theorem follows_nil (d : Directive) (start : Nat) :
    Cursor.Follows ⟨1, start, none⟩ d start [] 0 where
  depth := rfl
  place := rfl
  closer r := by simp
  elseSpan := by
    cases d with
    | each => exact .each rfl
    | cond => exact .ahead rfl fun s => by simp

/-- What is known of the `else` tag stays known behind a mark that does not end the loop. -/
theorem ElseSpan.mark {d : Directive} {start n n' : Nat} {p g : Text} {m : Mark}
    {span : Option (Nat × Nat)} (h : ElseSpan d start p n span)
    (hg : ∀ r, d.Skips g (m.text d ++ r)) (hn : (n' : Int) = n + m.weight)
    (hsplits : m = .splits → n = 0 → span ≠ none) :
    ElseSpan d start (p ++ (g ++ m.text d)) n' span := by
  cases h with
  | each hd => exact .each hd
  | ahead hd helse =>
    subst hd
    refine .ahead rfl fun s => ?_
    have hmark := splitElse?_mark hn (fun hm h0 => hsplits hm h0 rfl) s
    simp only [List.append_assoc, helse, splitElse?_append (hg s), hmark, Option.map_map]
    rfl
  | behind body q i j hd hp hi hj helse =>
    refine .behind body (q ++ (g ++ m.text d)) i j hd ?_ hi hj fun s => ?_
    · rw [hp]
      simp
    · rw [List.append_assoc, helse]
      simp

/-- The first `else` tag outside nested blocks becomes known. -/
theorem ElseSpan.splits {start place : Nat} {p g : Text} (h : ElseSpan .cond start p 0 none)
    (hplace : start + Text.utf8Length (p ++ g) = place)
    (hg : ∀ r, Directive.cond.Skips g (elseTag ++ r)) :
    ElseSpan .cond start (p ++ (g ++ elseTag)) 0
      (some (place, place + Text.utf8Length elseTag)) := by
  cases h with
  | each hd => cases hd
  | ahead _ helse =>
    refine .behind (p ++ g) [] _ _ rfl (by simp) hplace rfl fun s => ?_
    simp only [List.append_assoc, helse, splitElse?_append (hg s), splitElse?_elseTag]
    simp

/-- At the closer the parts of the block are cut out. -/
theorem ElseSpan.blockParts_eq {d : Directive} {start : Nat} {t pre p g rest : Text}
    {span : Option (Nat × Nat)} (h : ElseSpan d start p 0 span) (ht : t = pre ++ (p ++ g) ++ rest)
    (hpre : Text.utf8Length pre = start) (hg : d.Skips g []) :
    blockParts t start span (start + Text.utf8Length (p ++ g)) = .ok (splitParts d (p ++ g)) := by
  have hwhole : slice t start (start + Text.utf8Length (p ++ g)) = .ok (p ++ g) :=
    slice_append ht hpre (by rw [hpre])
  cases h with
  | each hd =>
    subst hd
    simp only [blockParts, hwhole, ok_bind]
    rfl
  | ahead hd helse =>
    subst hd
    have hnone : splitElse? 0 (p ++ g) = none := by
      have hskip := splitElse?_append hg 0
      rw [List.append_nil] at hskip
      rw [helse, hskip]
      rfl
    simp only [blockParts, hwhole, ok_bind, splitParts, hnone]
    rfl
  | behind body q i j hd hp hi hj helse =>
    subst hd
    have hbody : slice t start i = .ok body := by
      refine slice_append (b := elseTag ++ q ++ g ++ rest) ?_ hpre (by rw [hpre, hi])
      rw [ht, hp]
      simp
    have helseBody : slice t j (start + Text.utf8Length (p ++ g)) = .ok (q ++ g) := by
      refine slice_append (a := pre ++ body ++ elseTag) (b := rest) ?_ ?_ ?_
      · rw [ht, hp]
        simp
      · simp only [Text.utf8Length_append]
        omega
      · simp only [hp, Text.utf8Length_append]
        omega
    simp only [blockParts, hbody, helseBody, ok_bind, splitParts, helse g]
    rfl

/-! ## One turn and the whole loop -/

/-- What the cursor follows behind a mark that does not end the loop. -/
theorem Cursor.Follows.mark {s : Cursor} {d : Directive} {start n n' : Nat} {p g : Text} {m : Mark}
    {span : Option (Nat × Nat)} (h : s.Follows d start p n) (hm : m ∈ Mark.all d)
    (hg : ∀ r, d.Skips g (m.text d ++ r)) (hn : (n' : Int) = n + m.weight)
    (hspan : ElseSpan d start (p ++ (g ++ m.text d)) n' span) :
    Cursor.Follows ⟨n' + 1, s.place + Text.utf8Length g + Text.utf8Length (m.text d), span⟩ d start
      (p ++ (g ++ m.text d)) n' where
  depth := rfl
  place := by
    have hplace := h.place
    simp only [Text.utf8Length_append]
    omega
  closer r := by
    simp only [List.append_assoc, h.closer, splitCloser?_append (hg r), splitCloser?_mark hm hn,
      Option.map_map]
    rfl
  elseSpan := hspan

section Meet

variable {s : Cursor} {d : Directive} {start n : Nat} {p g : Text}

/-- At an opener one more block is open. -/
theorem Cursor.Follows.meet_opens (h : s.Follows d start p n) (t : Text)
    (hg : ∀ r, d.Skips g (d.opener ++ r)) : ∃ s' : Cursor,
      s.meet d t start (s.place + Text.utf8Length g) .opens = .ok (.further s') ∧
      s'.Follows d start (p ++ (g ++ d.opener)) (n + 1) := by
  have hn : ((n + 1 : Nat) : Int) = n + Mark.opens.weight := rfl
  have hspan := h.elseSpan.mark hg hn fun hm => absurd hm (by decide)
  refine ⟨_, ?_, h.mark (Mark.opens_mem_all d) hg hn hspan⟩
  simp only [Cursor.meet, h.depth]
  rfl

/-- At an `else` tag the number of open blocks stays; the first one outside nested blocks becomes
known. -/
theorem Cursor.Follows.meet_splits (h : s.Follows .cond start p n) (t : Text)
    (hg : ∀ r, Directive.cond.Skips g (elseTag ++ r)) : ∃ s' : Cursor,
      s.meet .cond t start (s.place + Text.utf8Length g) .splits = .ok (.further s') ∧
      s'.Follows .cond start (p ++ (g ++ elseTag)) n := by
  have hn : (n : Int) = n + Mark.splits.weight := (Int.add_zero _).symm
  by_cases hfirst : s.depth = 1 ∧ s.elseSpan = none
  · -- The bytes of the tag are taken down.
    obtain rfl : n = 0 := by
      have hdepth := h.depth
      omega
    have hspan := h.elseSpan
    rw [hfirst.2] at hspan
    have hplace : start + Text.utf8Length (p ++ g) = s.place + Text.utf8Length g := by
      rw [Text.utf8Length_append, ← h.place, Nat.add_assoc]
    refine ⟨_, ?_, h.mark (m := .splits) (by decide) hg hn (hspan.splits hplace hg)⟩
    simp only [Cursor.meet, hfirst]
    rfl
  · have hspan := h.elseSpan.mark hg hn fun _ h0 hnone => hfirst ⟨by rw [h.depth, h0], hnone⟩
    refine ⟨_, ?_, h.mark (m := .splits) (by decide) hg hn hspan⟩
    rw [h.depth] at hfirst
    simp only [Cursor.meet, h.depth, if_neg hfirst]
    rfl

/-- The closer of a nested block leaves one less block open. -/
theorem Cursor.Follows.meet_closes_nested (h : s.Follows d start p (n + 1)) (t : Text)
    (hg : ∀ r, d.Skips g (d.closer ++ r)) : ∃ s' : Cursor,
      s.meet d t start (s.place + Text.utf8Length g) .closes = .ok (.further s') ∧
      s'.Follows d start (p ++ (g ++ d.closer)) n := by
  have hn : (n : Int) = ((n + 1 : Nat) : Int) + Mark.closes.weight := by
    simp only [Mark.weight]
    omega
  have hsubtract : subtract s.depth 1 = .ok (n + 1) := by
    rw [h.depth, Nat.add_comm, subtract_add_left]
  have hspan := h.elseSpan.mark hg hn fun hm => absurd hm (by decide)
  refine ⟨_, ?_, h.mark (Mark.closes_mem_all d) hg hn hspan⟩
  simp only [Cursor.meet, hsubtract, ok_bind]
  rfl

/-- The closer of the block itself ends the loop with the parts of the block. -/
theorem Cursor.Follows.meet_closes_last {t pre r : Text} (h : s.Follows d start p 0)
    (ht : t = pre ++ (p ++ (g ++ (d.closer ++ r)))) (hpre : Text.utf8Length pre = start)
    (hg : d.Skips g (d.closer ++ r)) :
    s.meet d t start (s.place + Text.utf8Length g) .closes =
        .ok (.closed (splitParts d (p ++ g)).1 (splitParts d (p ++ g)).2
          (start + Text.utf8Length (p ++ g ++ d.closer))) ∧
      splitCloser? d 0 (p ++ (g ++ (d.closer ++ r))) = some (p ++ g, r) := by
  have hsubtract : subtract s.depth 1 = .ok 0 := by
    rw [h.depth, Nat.add_comm, subtract_add_left]
  have hplace : s.place + Text.utf8Length g = start + Text.utf8Length (p ++ g) := by
    rw [Text.utf8Length_append, ← h.place, Nat.add_assoc]
  have htext : t = pre ++ (p ++ g) ++ (d.closer ++ r) := by
    rw [ht]
    simp
  have hparts := h.elseSpan.blockParts_eq htext hpre hg.shorten
  constructor
  · simp only [Cursor.meet, hsubtract, ok_bind, hplace, hparts]
    rw [Text.utf8Length_append (p ++ g), ← Nat.add_assoc]
    rfl
  · rw [h.closer, splitCloser?_append hg, splitCloser?_closer]
    simp

end Meet

/-- A turn keeps what the cursor follows, with more text behind it, or it ends the loop with what
the search for the closer gives. -/
theorem Cursor.Follows.turn_cases {s : Cursor} {d : Directive} {start n : Nat}
    {t pre p rest : Text} (h : s.Follows d start p n) (ht : t = pre ++ (p ++ rest))
    (hpre : Text.utf8Length pre = start) :
    (∃ (s' : Cursor) (n' : Nat) (q r : Text), turn d t start s = .ok (.further s') ∧
        rest = q ++ r ∧ q ≠ [] ∧ s'.Follows d start (p ++ q) n') ∨
      (turn d t start s = .ok .unmatched ∧ splitCloser? d 0 (p ++ rest) = none) ∨
      ∃ content after, turn d t start s = .ok (.closed (splitParts d content).1
          (splitParts d content).2 (start + Text.utf8Length (content ++ d.closer))) ∧
        splitCloser? d 0 (p ++ rest) = some (content, after) := by
  have hslice : slice t s.place (Text.utf8Length t) = .ok rest := by
    refine slice_to_end (a := pre ++ p) (by rw [ht, List.append_assoc]) ?_
    rw [Text.utf8Length_append, hpre, h.place]
  simp only [turn, hslice, ok_bind]
  rcases hfirst : findFirst (Mark.text d) (Mark.all d) rest with _ | ⟨offset, m⟩
  · -- No mark is left, so there is no closer either.
    have hskip : d.Skips rest [] := fun m hm =>
      (Text.avoids_iff_not_infix (Mark.text_ne_nil d m)).2 (findFirst_eq_none_iff.1 hfirst m hm)
    have hnone := splitCloser?_append hskip n
    rw [List.append_nil] at hnone
    refine .inr (.inl ⟨rfl, ?_⟩)
    rw [h.closer, hnone]
    rfl
  · obtain ⟨hm, g, r, rfl, rfl, hskip⟩ := exists_of_findFirst_eq_some hfirst
    have hg := Directive.Skips.before_mark hskip
    have hne : g ++ m.text d ≠ [] := by simp [Mark.text_ne_nil]
    have hrest : g ++ (m.text d ++ r) = g ++ m.text d ++ r := (List.append_assoc ..).symm
    cases m with
    | opens =>
      obtain ⟨s', hmeet, hs'⟩ := h.meet_opens t hg
      exact .inl ⟨s', _, _, r, hmeet, hrest, hne, hs'⟩
    | splits =>
      -- Only the content of an `@if` block has two parts.
      obtain rfl : d = .cond := by
        cases d with
        | cond => rfl
        | each => exact absurd hm (by decide)
      obtain ⟨s', hmeet, hs'⟩ := h.meet_splits t hg
      exact .inl ⟨s', _, _, r, hmeet, hrest, hne, hs'⟩
    | closes =>
      rcases n with _ | n
      · obtain ⟨hmeet, hclose⟩ := h.meet_closes_last ht hpre hskip
        exact .inr (.inr ⟨_, _, hmeet, hclose⟩)
      · obtain ⟨s', hmeet, hs'⟩ := h.meet_closes_nested t hg
        exact .inl ⟨s', _, _, r, hmeet, hrest, hne, hs'⟩

/-- The loop ends with what the search for the closer gives, from wherever the cursor is. -/
theorem closeBlock_eq {s : Cursor} {d : Directive} {start n : Nat} {t pre p rest : Text}
    (h : s.Follows d start p n) (ht : t = pre ++ (p ++ rest))
    (hpre : Text.utf8Length pre = start) :
    closeBlock d t start s = .ok ((splitCloser? d 0 (p ++ rest)).map fun (content, _) =>
      ((splitParts d content).1, (splitParts d content).2,
        start + Text.utf8Length (content ++ d.closer))) := by
  -- The text ahead of the cursor becomes shorter with each turn.
  induction hlen : rest.length using Nat.strongRecOn generalizing s n p rest with
  | ind len ih =>
    rw [closeBlock_eq_turn]
    rcases h.turn_cases ht hpre with
      ⟨s', n', q, r, hturn, rfl, hq, hs'⟩ | ⟨hturn, hclose⟩ | ⟨content, after, hturn, hclose⟩
    · have hlt : r.length < len := by
        have hpos := List.length_pos_iff.2 hq
        rw [List.length_append] at hlen
        omega
      have hrest := ih r.length hlt hs' (by rw [ht, List.append_assoc]) rfl
      rw [hturn, ok_bind, ← List.append_assoc]
      exact hrest
    · rw [hturn, ok_bind, hclose]
      rfl
    · rw [hturn, ok_bind, hclose]
      rfl

/-- A block is looked for by bytes without a panic, and what is found is what `scan` finds. -/
theorem scan_eq (d : Directive) (t : Text) : scan d t = .ok (Stencil.scan d t).located := by
  unfold scan Stencil.scan find
  rcases hcut : Text.cut? d.opener t with _ | ⟨before, rest⟩
  · rfl
  · have ht := Text.cut?_eq_append hcut
    have hslice : slice t (Text.utf8Length before) (Text.utf8Length t) = .ok (d.opener ++ rest) :=
      slice_to_end (by rw [ht, List.append_assoc]) rfl
    simp only [Option.map_some, hslice, ok_bind, Text.after?_append, Option.bind_some]
    rcases htag : splitTag? d rest with _ | ⟨inner, rest'⟩
    · rfl
    · have hrest := splitTag?_eq_append htag
      have htext : t = before ++ (d.opener ++ inner ++ tagEnd) ++ ([] ++ rest') := by
        rw [ht, hrest]
        simp
      have hclose := closeBlock_eq (follows_nil d _) htext (Text.utf8Length_append _ _)
      rw [List.nil_append] at hclose
      simp only [hclose, ok_bind]
      rcases hsplit : splitCloser? d 0 rest' with _ | ⟨content, after⟩
      · rfl
      · have hcontent := content_splitParts d before inner content after
        simp only [Option.map_some, Scan.located, Block.located, Block.stop, Block.source, hcontent,
          Text.utf8Length_append, Nat.add_assoc]
        rfl

end Checked

end Stencil
