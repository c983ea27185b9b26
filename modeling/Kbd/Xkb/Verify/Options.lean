import Kbd.Xkb.Options
import Mathlib.Data.List.DropRight

/-!
# Options are found

A round of the loop is about one item of the list. `AtItem` says where the pointer is: what follows it
are the characters of the item and then the rest of the string.
-/

namespace Kbd.Xkb

open Kbd.Keymap

variable (isspace : Char → Bool)

/-- An item without the blanks around it. -/
def strip (s : List Char) : List Char := (s.dropWhile isspace).rdropWhile isspace

/-- An item, cut at its first `!` and stripped. -/
def itemOption (item : List Char) : List Char := strip isspace (item.takeWhile (· ≠ '!'))

/-- Some item of a list is the option. -/
def HasItem (s option : List Char) : Prop := ∃ item ∈ s.splitOn ',', itemOption isspace item = option

instance (s option : List Char) : Decidable (HasItem isspace s option) :=
  inferInstanceAs (Decidable (∃ item ∈ _, _))

/-! ## The functions of `string.h` -/

section Reads

variable {isspace} {mem : List Char} {p : Nat}

theorem getElem?_of_drop {c : Char} {s rest : List Char} (h : mem.drop p = s ++ c :: rest) :
    mem[p + s.length]? = some c := by
  have hget : (mem.drop p)[s.length]? = mem[p + s.length]? := List.getElem?_drop
  rw [← hget, h]
  simp

/-- A run of characters that are not looked for, before one that is. -/
theorem strcspn_of_drop {reject s rest : List Char} {c : Char} (h : mem.drop p = s ++ c :: rest)
    (hs : ∀ x ∈ s, x ∉ reject ∧ x ≠ '\x00') (hc : c ∈ reject ∨ c = '\x00') :
    strcspn mem p reject = some s.length := by
  have htake : ((s ++ c :: rest).takeWhile fun x => !(decide (x ∈ reject) || x = '\x00')) = s := by
    rw [List.takeWhile_append_of_pos, List.takeWhile_cons_of_neg, List.append_nil]
    · rcases hc with hc | hc
      · simp [hc]
      · simp [hc]
    · intro x hx
      simp [hs x hx]
  simp only [strcspn, h, htake]
  rw [if_pos (by simp)]

/-- `strchr` in front of a comma. -/
theorem strchr_comma {s rest : List Char} (h : mem.drop p = s ++ ',' :: rest)
    (hs : ∀ x ∈ s, x ≠ ',' ∧ x ≠ '\x00') : strchr mem p ',' = some (some (p + s.length)) := by
  have hn : strcspn mem p [','] = some s.length :=
    strcspn_of_drop h (fun x hx => by simpa using hs x hx) (.inl (by simp))
  rw [strchr, hn]
  simp [getElem?_of_drop h]

/-- `strchr` in front of the end. -/
theorem strchr_nul {s rest : List Char} (h : mem.drop p = s ++ '\x00' :: rest)
    (hs : ∀ x ∈ s, x ≠ ',' ∧ x ≠ '\x00') : strchr mem p ',' = some none := by
  have hn : strcspn mem p [','] = some s.length :=
    strcspn_of_drop h (fun x hx => by simpa using hs x hx) (.inr rfl)
  rw [strchr, hn]
  simp [getElem?_of_drop h]

theorem skipBlanks_of_drop {s rest : List Char} (h : mem.drop p = s ++ rest) :
    ∃ p', skipBlanks isspace mem s.length p = some (p', (s.dropWhile isspace).length) ∧
      mem.drop p' = s.dropWhile isspace ++ rest := by
  induction s generalizing p with
  | nil => exact ⟨p, rfl, h⟩
  | cons c s ih =>
    have hc : mem[p]? = some c := getElem?_of_drop (s := []) h
    by_cases hb : isspace c = true
    · have hnext : mem.drop (p + 1) = s ++ rest := by
        rw [← List.drop_drop, h]
        rfl
      obtain ⟨p', hrun, hdrop⟩ := ih hnext
      rw [List.dropWhile_cons_of_pos hb]
      refine ⟨p', ?_, hdrop⟩
      rw [List.length_cons, skipBlanks, hc]
      simpa [hb] using hrun
    · rw [List.dropWhile_cons_of_neg hb]
      refine ⟨p, ?_, h⟩
      rw [List.length_cons, skipBlanks, hc]
      simp [hb]

theorem trimBlanks_of_drop {s rest : List Char} (h : mem.drop p = s ++ rest) :
    trimBlanks isspace mem p s.length = some (s.rdropWhile isspace).length := by
  induction s using List.reverseRecOn generalizing rest with
  | nil => rfl
  | append_singleton s c ih =>
    rw [List.append_assoc] at h
    have hc : mem[p + s.length]? = some c := getElem?_of_drop h
    rw [List.length_append, List.length_singleton, trimBlanks, hc]
    by_cases hb : isspace c = true
    · rw [List.rdropWhile_concat_pos _ _ _ hb]
      simpa [hb] using ih h
    · rw [List.rdropWhile_concat_neg _ _ _ hb]
      simp [hb]

theorem memcmpEq_of_drop {s rest option : List Char} {c : Char} (h : mem.drop p = s ++ c :: rest)
    (hlen : s.length = option.length) : memcmpEq mem p option = some (decide (s = option)) := by
  have hle : p + option.length ≤ mem.length := by
    have hdrop := congrArg List.length h
    rw [List.length_drop, List.length_append, List.length_cons] at hdrop
    omega
  rw [memcmpEq, if_pos hle, h, ← hlen, List.take_left]

end Reads

/-! ## The rounds -/

section Loop

variable {isspace} {mem : List Char}

/-- The character after an item. -/
def EndsItem (c : Char) : Prop := c = ',' ∨ c = '\x00'

/-- The part of an item before the first `!`, and the character after that. -/
theorem cut_item {item rest : List Char} {c : Char} (hc : EndsItem c) :
    ∃ d rest', item ++ c :: rest = item.takeWhile (· ≠ '!') ++ d :: rest' ∧
      (d ∈ [',', '!'] ∨ d = '\x00') := by
  have hsplit := List.takeWhile_append_dropWhile (p := fun x : Char => decide (x ≠ '!')) (l := item)
  cases hdrop : item.dropWhile fun x : Char => decide (x ≠ '!') with
  | nil =>
    rw [hdrop, List.append_nil] at hsplit
    refine ⟨c, rest, by rw [hsplit], ?_⟩
    rcases hc with rfl | rfl
    · exact .inl (by simp)
    · exact .inr rfl
  | cons d more =>
    have hd : d = '!' := by
      have hhead := List.head?_dropWhile_not (fun x : Char => decide (x ≠ '!')) item
      rw [hdrop] at hhead
      simpa using hhead
    rw [hdrop] at hsplit
    refine ⟨d, more ++ c :: rest, ?_, .inl (by simp [hd])⟩
    rw [← List.cons_append, ← List.append_assoc, hsplit]

/-- What a round makes of an item. -/
theorem optionsLoop_item {p rounds : Nat} {item rest : List Char} {c : Char}
    (h : mem.drop p = item ++ c :: rest) (hitem : ∀ x ∈ item, x ≠ ',' ∧ x ≠ '\x00')
    (hc : EndsItem c) (hne : item = [] → c = ',') :
    optionsLoop isspace mem (rounds + 1) (some p) =
      if itemOption isspace item = unsupported then some true
      else optionsLoop isspace mem rounds (if c = ',' then some (p + item.length + 1) else none) := by
  obtain ⟨first, hfirst, hfirst0⟩ : ∃ first, mem[p]? = some first ∧ first ≠ '\x00' := by
    cases item with
    | nil =>
      refine ⟨c, getElem?_of_drop (s := []) h, ?_⟩
      rw [hne rfl]
      decide
    | cons x item => exact ⟨x, getElem?_of_drop (s := []) h, (hitem x List.mem_cons_self).2⟩
  have hnext : strchr mem p ',' = some (if c = ',' then some (p + item.length) else none) := by
    rcases hc with rfl | rfl
    · exact strchr_comma h hitem
    · exact strchr_nul h hitem
  obtain ⟨d, rest', hcut, hd⟩ : ∃ d rest',
      item ++ c :: rest = item.takeWhile (· ≠ '!') ++ d :: rest' ∧ (d ∈ [',', '!'] ∨ d = '\x00') :=
    cut_item hc
  rw [hcut] at h
  set cut := item.takeWhile (· ≠ '!')
  have hlen : strcspn mem p [',', '!'] = some cut.length := by
    refine strcspn_of_drop h (fun x hx => ?_) hd
    have hmem := hitem x ((List.takeWhile_prefix _).subset hx)
    have hbang : x ≠ '!' := by simpa using List.mem_takeWhile_imp hx
    exact ⟨by simp [hmem.1, hbang], hmem.2⟩
  obtain ⟨p', hskip, hp'⟩ : ∃ p',
      skipBlanks isspace mem cut.length p = some (p', (cut.dropWhile isspace).length) ∧
        mem.drop p' = cut.dropWhile isspace ++ d :: rest' :=
    skipBlanks_of_drop h
  have htrim : trimBlanks isspace mem p' (cut.dropWhile isspace).length =
      some ((cut.dropWhile isspace).rdropWhile isspace).length :=
    trimBlanks_of_drop hp'
  -- what the blanks leave is at the pointer, followed by those at the end and by `d`
  obtain ⟨e, rest'', hword⟩ : ∃ e rest'', mem.drop p' = strip isspace cut ++ e :: rest'' := by
    obtain ⟨tail, htail⟩ := List.rdropWhile_prefix isspace (cut.dropWhile isspace)
    rw [hp', ← htail, List.append_assoc]
    cases tail with
    | nil => exact ⟨d, rest', rfl⟩
    | cons e tail => exact ⟨e, tail ++ d :: rest', rfl⟩
  change trimBlanks isspace mem p' _ = some (strip isspace cut).length at htrim
  change optionsLoop isspace mem (rounds + 1) (some p) =
    if strip isspace cut = unsupported then some true else _
  rw [optionsLoop]
  simp only [hfirst, hfirst0, hnext, hlen, hskip, htrim, Option.bind_eq_bind, Option.bind_some,
    ↓reduceIte]
  by_cases hfound : strip isspace cut = unsupported
  · have hcmp := memcmpEq_of_drop hword (congrArg List.length hfound)
    rw [hfound, decide_eq_true rfl] at hcmp
    simp [hfound, hcmp]
  · have hgo : Option.map (· + 1) (if c = ',' then some (p + item.length) else none) =
        if c = ',' then some (p + item.length + 1) else none := by
      split <;> rfl
    by_cases hwidth : (strip isspace cut).length = unsupported.length
    · have hcmp := memcmpEq_of_drop hword hwidth
      rw [decide_eq_false hfound] at hcmp
      simp [hfound, hwidth, hcmp, hgo]
    · simp [hfound, hwidth, hgo]

theorem optionsLoop_nul {p rounds : Nat} (h : mem.drop p = ['\x00']) :
    optionsLoop isspace mem (rounds + 1) (some p) = some false := by
  have hc : mem[p]? = some '\x00' := getElem?_of_drop (s := []) h
  rw [optionsLoop, hc]
  rfl

theorem hasItem_last {s option : List Char} (hs : ',' ∉ s) :
    HasItem isspace s option ↔ itemOption isspace s = option := by
  rw [HasItem, List.splitOn_eq_singleton hs]
  simp

theorem hasItem_cons {item s option : List Char} (hitem : ',' ∉ item) :
    HasItem isspace (item ++ ',' :: s) option ↔
      itemOption isspace item = option ∨ HasItem isspace s option := by
  rw [HasItem, HasItem, List.splitOn_append_cons_self_of_not_mem hitem]
  simp

/-- A list is its first item alone, or that item, a comma and a shorter list. -/
theorem first_item (s : List Char) :
    ',' ∉ s ∨ ∃ item rest, ',' ∉ item ∧ s = item ++ ',' :: rest := by
  by_cases h : ',' ∈ s
  · obtain ⟨item, rest, rfl, hitem⟩ := List.eq_append_cons_of_mem h
    exact .inr ⟨item, rest, hitem, rfl⟩
  · exact .inl h

theorem unsupported_ne_nil : unsupported ≠ [] := by
  decide

/-- The loop looks at the items one by one. -/
theorem optionsLoop_spec {p rounds : Nat} {s : List Char} (h : mem.drop p = s ++ ['\x00'])
    (hs : '\x00' ∉ s) (hrounds : s.length < rounds) :
    optionsLoop isspace mem rounds (some p) = some (decide (HasItem isspace s unsupported)) := by
  induction rounds generalizing p s with
  | zero => omega
  | succ rounds ih =>
    have hchars {item : List Char} (hcomma : ',' ∉ item) (hsub : item ⊆ s) :
        ∀ x ∈ item, x ≠ ',' ∧ x ≠ '\x00' := by
      intro x hx
      exact ⟨fun he => hcomma (he ▸ hx), fun he => hs (hsub (he ▸ hx))⟩
    rcases first_item s with hcomma | ⟨item, rest, hcomma, rfl⟩
    · by_cases hnil : s = []
      · subst hnil
        rw [optionsLoop_nul h]
        have hnot : ¬ HasItem isspace [] unsupported := by
          rw [hasItem_last List.not_mem_nil]
          simp [itemOption, strip, unsupported_ne_nil.symm]
        rw [decide_eq_false hnot]
      · obtain ⟨more, rfl⟩ : ∃ more, rounds = more + 1 := by
          have := List.length_pos_iff.mpr hnil
          exact ⟨rounds - 1, by omega⟩
        rw [optionsLoop_item h (hchars hcomma (List.Subset.refl s)) (.inr rfl) (absurd · hnil),
          if_neg (show ¬ '\x00' = ',' by decide)]
        simp only [hasItem_last hcomma]
        split
        · simp [*]
        · simp [*, optionsLoop]
    · have hdrop : mem.drop p = item ++ ',' :: (rest ++ ['\x00']) := by simp [h]
      have hnext : mem.drop (p + item.length + 1) = rest ++ ['\x00'] := by
        rw [Nat.add_assoc, ← List.drop_drop, hdrop]
        simp
      rw [optionsLoop_item hdrop (hchars hcomma (by simp)) (.inl rfl) fun _ => rfl,
        if_pos rfl, ih hnext (by simp_all) (by simp at hrounds; omega)]
      simp only [hasItem_cons hcomma]
      split
      · simp [*]
      · simp [*]

end Loop

/-- The rounds that `optionsLoop` is given are enough, no read is past the NUL, and the result tells
whether the list has the option. -/
theorem xkeymapHasShiftsToggle_spec :
    (∀ (s : List Char) (more : Nat),
      optionsLoop isspace (cstr s ++ ['\x00']) ((cstr s).length + 1 + more) (some 0) =
        some (decide (HasItem isspace (cstr s) unsupported))) ∧
    ∀ getenv options : Option (List Char), xkeymapHasShiftsToggle isspace getenv options =
      some ((options.or getenv).any fun s => decide (HasItem isspace (cstr s) unsupported)) := by
  have hloop (s : List Char) (more : Nat) :
      optionsLoop isspace (cstr s ++ ['\x00']) ((cstr s).length + 1 + more) (some 0) =
        some (decide (HasItem isspace (cstr s) unsupported)) := by
    have hs : '\x00' ∉ cstr s := fun h => by simpa using List.mem_takeWhile_imp h
    exact optionsLoop_spec rfl hs (by omega)
  refine ⟨hloop, fun getenv options => ?_⟩
  unfold xkeymapHasShiftsToggle
  cases options.or getenv with
  | none => rfl
  | some s => exact hloop s 0

end Kbd.Xkb
