-- SUMMARY: Scrubbing the output of a process that was given a secret: one replacement after another.
import FlyCockpit.Lib.Search
import FlyCockpit.Redact.Encodings
import FlyCockpit.Redact.Survival

/-!
# Output of processes that were given a secret

The secret and its encodings are searched for one after another, the longest first, and every match
is replaced by a fixed marker. A replacement can only make a new occurrence where the marker is, so
nothing that is searched for is left unless it meets the marker. The encodings never do. The secret
itself may, and it is not looked at for that.
-/

namespace FlyCockpit.Redact

open List

/-! ## The scrub -/

/-- Every match of the pattern replaced, each search going on behind the last match. -/
def replace (body pattern text : Bytes) : Bytes :=
  splice body ((Search.matchIndices (fun _ => 1) pattern body).map fun i =>
    (⟨i, i + pattern.length⟩, text))

def injectedMarker : Bytes := Bytes.ascii "***REDACT***"

/-- What is searched for, in order. -/
def injectedVariants (literal : Bytes) : List Bytes :=
  ((encodedSecretVariants literal ++ [literal]).insertionSort fun a b => b.length ≤ a.length).destutter
    (· ≠ ·)

def injectedStep (scrubbed variant : Bytes) : Bytes :=
  if variant = [] then scrubbed else replace scrubbed variant injectedMarker

def scrubInjectedOutput (body literal : Bytes) : Bytes :=
  (injectedVariants literal).foldl injectedStep body

/-- Neither the value nor an encoding of it occurs in the text. -/
def FreeOf (literal text : Bytes) : Prop :=
  ∀ variant ∈ literal :: encodedSecretVariants literal, contains text variant = false

/-! ## One replacement -/

theorem size_bytes (l : Bytes) : Search.size (fun _ => 1) l = l.length := by
  induction l with
  | nil => rfl
  | cons b l ih => rw [Search.size_cons, ih, length_cons, Nat.add_comm]

variable {pattern literal variant alphabet bytes : Bytes}

theorem occurs_iff_prefix_drop {body : Bytes} (hne : pattern ≠ []) {i : Nat} :
    Search.Occurs (fun _ => 1) pattern body i ↔ pattern <+: body.drop i := by
  constructor
  · rintro ⟨before, after, rfl, rfl⟩
    rw [size_bytes, drop_left]
    exact prefix_append pattern after
  · rintro ⟨after, hafter⟩
    have hle : i ≤ body.length := by
      by_contra hlt
      rw [drop_of_length_le (by omega), append_eq_nil_iff] at hafter
      exact hne hafter.1
    refine ⟨body.take i, after, ?_, ?_⟩
    · rw [hafter, take_append_drop]
    · rw [size_bytes, length_take_of_le hle]

/-- The matches that are replaced tile the occurrences. -/
theorem tiles_replaced (hne : pattern ≠ []) (body : Bytes) :
    Tiles (fun i => i) (· + pattern.length) (fun i => pattern <+: body.drop i)
      (Search.matchIndices (fun _ => 1) pattern body) := by
  have htiles := Search.tiles_matchIndices (fun _ => Nat.one_pos) hne body
  have hoccurs : Search.Occurs (fun _ => 1) pattern body = fun i => pattern <+: body.drop i := by
    funext i
    exact propext (occurs_iff_prefix_drop hne)
  rwa [size_bytes, hoccurs] at htiles

section Replace

variable {body pattern text value : Bytes}

/-- A value that does not meet the text put in is not made by a replacement. -/
theorem not_contains_replace (hpattern : pattern ≠ []) (htext : text ≠ []) (hvalue : value ≠ [])
    (hmeets : ¬Meets value text) (h : value = pattern ∨ contains body value = false) :
    contains (replace body pattern text) value = false := by
  have htiles := tiles_replaced hpattern body
  rw [Bool.eq_false_iff]
  intro hcontains
  obtain ⟨j, hj⟩ := contains_iff.1 hcontains
  have hput := putTogether_of_prefix_drop ?_ ?_ (fun i _ hocc => ?_) hj
  · obtain ⟨x, hx, hmeets'⟩ := hput.meets hvalue (forall_mem_map.2 fun _ _ => htext)
    obtain ⟨i, -, rfl⟩ := mem_map.1 hx
    exact hmeets hmeets'
  · intro x hx
    obtain ⟨i, -, rfl⟩ := mem_map.1 hx
    exact ⟨Nat.zero_le _, Nat.le_add_right ..⟩
  · exact pairwise_map.2 htiles.apart
  · rcases h with rfl | hnot
    · obtain ⟨k, hk, hki, hik⟩ := htiles.covers i hocc
      exact ⟨_, mem_map_of_mem hk, hki, hik⟩
    · exact absurd (contains_iff.2 ⟨i, hocc⟩) (Bool.eq_false_iff.1 hnot)

theorem replace_of_not_contains (hpattern : pattern ≠ []) (h : contains body pattern = false) :
    replace body pattern text = body := by
  have hnil : Search.matchIndices (fun _ => 1) pattern body = [] := by
    refine eq_nil_iff_forall_not_mem.2 fun i hi => ?_
    have hocc := (tiles_replaced hpattern body).occurs i hi
    exact absurd (contains_iff.2 ⟨i, hocc⟩) (Bool.eq_false_iff.1 h)
  rw [replace, hnil]
  rfl

end Replace

/-! ## All replacements -/

section Loop

variable {variants : List Bytes} {body value : Bytes}

/-- What was searched for and what was absent from the start is absent in the end. -/
theorem not_contains_foldl (hne : ∀ variant ∈ variants, variant ≠ []) (hvalue : value ≠ [])
    (hmeets : ¬Meets value injectedMarker) (h : value ∈ variants ∨ contains body value = false) :
    contains (variants.foldl injectedStep body) value = false := by
  induction variants generalizing body with
  | nil => exact h.resolve_left not_mem_nil
  | cons variant variants ih =>
    obtain ⟨hvariant, hne⟩ := forall_mem_cons.1 hne
    have hstep : injectedStep body variant = replace body variant injectedMarker := if_neg hvariant
    rw [foldl_cons, hstep]
    refine ih hne ?_
    rw [mem_cons] at h
    by_cases hmem : value ∈ variants
    · exact .inl hmem
    · refine .inr (not_contains_replace hvariant (by decide) hvalue hmeets ?_)
      exact h.imp_left fun h => h.resolve_right hmem

end Loop

/-! ## What is searched for -/

theorem mem_injectedVariants :
    variant ∈ injectedVariants literal ↔ variant ∈ literal :: encodedSecretVariants literal := by
  have hsorted : ∀ v, v ∈ (encodedSecretVariants literal ++ [literal]).insertionSort
      (fun a b => b.length ≤ a.length) ↔ v ∈ literal :: encodedSecretVariants literal := by
    intro v
    rw [mem_insertionSort, mem_append, mem_singleton, mem_cons, or_comm]
  rw [← hsorted]
  constructor
  · exact fun h => (destutter_sublist _ _).subset h
  · intro h
    obtain ⟨v, hv, rfl⟩ := exists_mem_destutter (fun v : Bytes => v) h
    exact hv

/-- A text without asterisks lies between those of the marker wherever it meets the marker. -/
theorem not_meets_injectedMarker {value : Bytes} (hasterisk : 0x2A ∉ value)
    (hinside : ¬value <:+: Bytes.ascii "REDACT") : ¬Meets value injectedMarker := by
  have hends : ∀ j < injectedMarker.length, 0x2A ∈ injectedMarker.drop j := by decide
  have hbetween : ∀ j < injectedMarker.length,
      (injectedMarker.drop j).takeWhile (· ≠ 0x2A) <:+: Bytes.ascii "REDACT" := by decide
  -- What starts like a part of the marker ends before the next asterisk.
  have hwhile : ∀ {l l' : Bytes}, 0x2A ∉ l → l <+: l' → l <+: l'.takeWhile (· ≠ 0x2A) := by
    intro l l' hnot hstarts
    obtain ⟨r, rfl⟩ := hstarts
    have hall : ∀ b ∈ l, decide (b ≠ 0x2A) = true := by
      intro b hb
      refine decide_eq_true ?_
      rintro rfl
      exact hnot hb
    rw [takeWhile_append_of_pos hall]
    exact prefix_append ..
  rintro ⟨i, hi, j, hj, hzero, hagree⟩
  have hrest : 0x2A ∉ value.drop i := fun h => hasterisk (mem_of_mem_drop h)
  rcases hagree with hstarts | hstarts
  · have hstarts := hwhile hrest hstarts
    rcases hzero with rfl | rfl
    · exact hinside (hstarts.isInfix.trans (hbetween j hj))
    · have hnil : value.drop i = [] := prefix_nil.1 hstarts
      rw [drop_eq_nil_iff] at hnil
      omega
  · exact hrest (hstarts.subset (hends j hj))

theorem not_meets_of_encoded (h : variant ∈ encodedSecretVariants literal) :
    ¬Meets variant injectedMarker := by
  refine not_meets_injectedMarker (asterisk_not_mem_of_encoded h) fun hmarker => ?_
  have hle := hmarker.length_le
  rw [show (Bytes.ascii "REDACT").length = 6 from rfl] at hle
  obtain ⟨hlong, hne, rfl | ⟨alphabet, -, rfl⟩ | rfl⟩ := encoded_cases h
  · rw [length_base64Encode] at hle
    omega
  · rw [length_hexEncodeWith] at hle
    omega
  · exact absurd (hmarker.subset (percent_mem_urlEncode hne)) (by decide)

/-! ## Completeness -/

theorem injectedVariants_ne_nil (hne : literal ≠ []) :
    ∀ variant ∈ injectedVariants literal, variant ≠ [] := by
  intro variant h
  rcases mem_cons.1 (mem_injectedVariants.1 h) with rfl | h
  · exact hne
  · rw [encodedSecretVariants] at h
    split_ifs at h with hshort
    · cases h
    · exact (of_decide_eq_true (mem_filter.1 (mem_of_mem_take h)).2).1

theorem encoded_not_infix_marker (h : variant ∈ encodedSecretVariants literal) :
    ¬variant <:+: injectedMarker := by
  rintro ⟨l, r, hmarker⟩
  have hpos : 0 < variant.length := Nat.zero_lt_of_lt (length_lt_of_encoded h)
  refine not_meets_of_encoded h ⟨0, hpos, l.length, ?_, .inl rfl, .inl ?_⟩
  · rw [← hmarker, length_append, length_append]
    omega
  · rw [← hmarker, append_assoc, drop_left]
    exact prefix_append ..

/-- The secret is searched for last. -/
theorem injectedVariants_eq (literal : Bytes) :
    ∃ variants, injectedVariants literal = variants ++ [literal] ∧
      ∀ variant ∈ variants, variant ∈ encodedSecretVariants literal := by
  have hsorted : (injectedVariants literal).Pairwise fun a b => b.length ≤ a.length :=
    (pairwise_insertionSort _ _).sublist (destutter_sublist ..)
  have hchain : (injectedVariants literal).IsChain (· ≠ ·) := isChain_destutter ..
  have hlast : ∀ l r, injectedVariants literal = l ++ literal :: r → r = [] := by
    intro l r hsplit
    rw [hsplit] at hsorted hchain
    cases r with
    | nil => rfl
    | cons v r =>
      have hne : literal ≠ v := (isChain_append_cons_cons.1 hchain).2.1
      have hle : v.length ≤ literal.length :=
        rel_of_pairwise_cons (pairwise_append.1 hsorted).2.1 mem_cons_self
      have hmem : v ∈ injectedVariants literal := by simp [hsplit]
      have hencoded := (mem_cons.1 (mem_injectedVariants.1 hmem)).resolve_left hne.symm
      exact absurd (length_lt_of_encoded hencoded) (Nat.not_lt.2 hle)
  obtain ⟨l, r, hsplit⟩ := append_of_mem (mem_injectedVariants.2 (mem_cons_self (a := literal)))
  obtain rfl := hlast l r hsplit
  refine ⟨l, hsplit, fun v hv => ?_⟩
  have hmem : v ∈ injectedVariants literal := by
    rw [hsplit]
    exact mem_append_left _ hv
  refine (mem_cons.1 (mem_injectedVariants.1 hmem)).resolve_left ?_
  rintro rfl
  obtain ⟨l₁, l₂, rfl⟩ := append_of_mem hv
  rw [append_assoc] at hsplit
  exact absurd (hlast _ _ hsplit) (by simp)

/-- A pattern that stands only in one place. -/
theorem replace_once {text : Bytes} (hne : literal ≠ []) (hb : b.length < literal.length)
    (hfirst : ∀ i < a.length, ¬literal <+: (a ++ (literal ++ b)).drop i) :
    replace (a ++ (literal ++ b)) literal text = a ++ (text ++ b) := by
  have hone : Tiles (fun i => i) (· + literal.length) (fun i => literal <+: (a ++ (literal ++ b)).drop i)
      [a.length] := by
    refine ⟨?_, pairwise_singleton .., fun i hi => ⟨_, mem_singleton.2 rfl, ?_, ?_⟩⟩
    · rw [forall_mem_singleton, drop_left]
      exact prefix_append ..
    · by_contra hlt
      exact hfirst i (Nat.not_le.1 hlt) hi
    · have hle := hi.length_le
      rw [length_drop, length_append, length_append] at hle
      have hpos := length_pos_iff.2 hne
      omega
  have hindices := (tiles_replaced hne (a ++ (literal ++ b))).unique hone
    (fun i _ => Nat.le_add_right i _) fun i j _ _ hij => hij
  rw [replace, hindices]
  simp [splice, spliceFrom]

/-- A body in which the secret stands once and no encoding does, and where the marker in the place
    of the secret makes the secret again. -/
theorem not_freeOf_scrubInjectedOutput (hne : literal ≠ []) (hb : b.length < literal.length)
    (hfirst : ∀ i < a.length, ¬literal <+: (a ++ (literal ++ b)).drop i)
    (hencoded : ∀ variant ∈ encodedSecretVariants literal, ¬variant <:+: a ++ (literal ++ b))
    (hmade : literal <:+: a ++ (injectedMarker ++ b)) :
    ¬FreeOf literal (scrubInjectedOutput (a ++ (literal ++ b)) literal) := by
  obtain ⟨variants, hvariants, hmem⟩ := injectedVariants_eq literal
  have hkept : variants.foldl injectedStep (a ++ (literal ++ b)) = a ++ (literal ++ b) := by
    refine foldlRecOn variants injectedStep (motive := (· = a ++ (literal ++ b))) rfl ?_
    rintro _ rfl variant hvariant
    rw [injectedStep]
    split_ifs with hnil
    · rfl
    · exact replace_of_not_contains hnil (decide_eq_false (hencoded variant (hmem variant hvariant)))
  intro hfree
  have hcontains := hfree literal mem_cons_self
  rw [scrubInjectedOutput, hvariants, foldl_append, hkept, foldl_cons, foldl_nil, injectedStep,
    if_neg hne, replace_once hne hb hfirst, contains, decide_eq_false_iff_not] at hcontains
  exact hcontains hmade

/-- A secret that does not begin with an asterisk but has one does not stand earlier than behind what
    is before the asterisk. -/
theorem not_prefix_drop (hliteral : literal = a ++ 0x2A :: rest) (hhead : literal[0]? ≠ some 0x2A)
    {i : Nat} (hi : i < a.length) : ¬literal <+: (a ++ (literal ++ b)).drop i := by
  intro h
  have hlength : literal.length = a.length + (rest.length + 1) := by rw [hliteral, length_append, length_cons]
  rw [prefix_iff_getElem?] at h
  have hfirst := h 0 (by omega)
  have hstar := h a.length (by omega)
  rw [List.getElem?_drop, Nat.add_zero, List.getElem?_append_left hi, ← List.getElem?_eq_getElem] at hfirst
  rw [List.getElem?_drop, Nat.add_comm i, List.getElem?_append_right (Nat.le_add_right ..),
    Nat.add_sub_cancel_left, List.getElem?_append_left (by omega), ← List.getElem?_eq_getElem,
    hliteral, List.getElem?_append_left hi, List.getElem?_append_right (Nat.le_refl _), Nat.sub_self] at hstar
  exact hhead (hfirst.symm.trans hstar)

/-- The secret is left in some output. -/
def Survives (literal : Bytes) : Prop :=
  ∃ body, Utf8.Valid body ∧ ¬FreeOf literal (scrubInjectedOutput body literal)

/-- A secret that is laid over the marker and agrees with it on the part they share. -/
theorem survives_of_shared {x c y : Bytes} (hvalid : Utf8.Valid literal)
    (hliteral : literal = x ++ (c ++ y)) (hne : c ≠ []) (hwithin : c <:+: injectedMarker)
    (hx : x = [] ∨ literal[0]? ≠ some 0x2A ∧ c <+: injectedMarker) (hy : y = [] ∨ c <:+ injectedMarker)
    (hmade : literal <:+: x ++ (injectedMarker ++ y)) : Survives literal := by
  have hpos := length_pos_iff.2 hne
  have hlength : literal.length = x.length + (c.length + y.length) := by simp [hliteral]
  have hsides : ∀ {l r : Bytes}, literal = l ++ 0x2A :: r → Utf8.Valid l ∧ Utf8.Valid r := fun h =>
    Utf8.Valid.of_append_cons (by decide) (h ▸ hvalid)
  -- What is before the shared part ends at an asterisk.
  have hbefore : x = [] ∨ literal[0]? ≠ some 0x2A ∧ ∃ r, c = 0x2A :: r := by
    refine hx.imp_right fun ⟨hhead, hprefix⟩ => ⟨hhead, ?_⟩
    obtain ⟨b, r, rfl⟩ := exists_cons_of_ne_nil hne
    exact ⟨r, by rw [show b = 0x2A from (cons_prefix_cons.1 hprefix).1]⟩
  have hbehind : y = [] ∨ ∃ r, c = r ++ [0x2A] := by
    refine hy.imp_right fun ⟨r, hsuffix⟩ => ⟨c.dropLast, ?_⟩
    have hlast := congrArg getLast? hsuffix
    rw [getLast?_append_of_ne_nil _ hne, getLast?_eq_some_getLast hne] at hlast
    rw [← show c.getLast hne = 0x2A from Option.some.inj hlast, dropLast_append_getLast]
  refine ⟨x ++ (literal ++ y), ?_, not_freeOf_scrubInjectedOutput (length_pos_iff.1 (by omega)) (by omega)
    (fun i hi => ?_) (fun v hv hin => ?_) hmade⟩
  · have hvx : Utf8.Valid x := by
      obtain rfl | ⟨-, r, rfl⟩ := hbefore
      · rfl
      · exact (hsides hliteral).1
    have hvy : Utf8.Valid y := by
      obtain rfl | ⟨r, rfl⟩ := hbehind
      · rfl
      · exact (hsides (l := x ++ r) (by simp [hliteral])).2
    exact hvx.append (hvalid.append hvy)
  · obtain rfl | ⟨hhead, r, rfl⟩ := hbefore
    · cases hi
    · exact not_prefix_drop hliteral hhead hi
  · have hasterisk := asterisk_not_mem_of_encoded hv
    have hmarker := encoded_not_infix_marker hv
    obtain ⟨d, hd, hin⟩ : ∃ d, d <:+ c ∧ v <:+: d ++ (y ++ y) := by
      obtain rfl | ⟨-, r, rfl⟩ := hbefore
      · exact ⟨c, suffix_rfl, by simpa [hliteral] using hin⟩
      · rw [hliteral, append_assoc, append_assoc, cons_append, ← append_assoc] at hin
        exact ⟨r, suffix_cons .., (before_or_behind hasterisk hin).resolve_left
          (encoded_not_within hv (.inl hliteral))⟩
    obtain rfl | ⟨r, rfl⟩ := hbehind
    · rw [append_nil, append_nil] at hin
      exact hmarker (hin.trans (hd.isInfix.trans hwithin))
    · have hbefore : literal = (x ++ r) ++ 0x2A :: y := by simp [hliteral]
      have hdoubled : ¬v <:+: y ++ y := encoded_not_within hv (.inr hbefore)
      obtain rfl | ⟨e, rfl, he⟩ := suffix_concat_iff.1 hd
      · exact hdoubled hin
      · rw [append_assoc] at hin
        refine (before_or_behind hasterisk hin).elim (fun hin => hmarker ?_) hdoubled
        exact hin.trans (he.isInfix.trans ((prefix_append ..).isInfix.trans hwithin))

theorem survives_of_meets (hvalid : Utf8.Valid literal) (h : Meets literal injectedMarker) :
    Survives literal := by
  obtain ⟨i, hi, j, hj, hzero, hagree⟩ := h
  by_cases hhead : literal[0]? = some 0x2A
  · obtain ⟨y, rfl⟩ := head?_eq_some_iff.1 (head?_eq_getElem? ▸ hhead)
    exact survives_of_shared (x := []) (c := [0x2A]) hvalid rfl (by decide) (by decide) (.inl rfl)
      (.inr (by decide)) ⟨Bytes.ascii "***REDACT**", [], by rw [append_nil]; rfl⟩
  rcases hzero with rfl | rfl
  · rw [drop_zero] at hagree
    rcases hagree with hinside | ⟨y, hstarts⟩
    · have hwithin := hinside.isInfix.trans (drop_suffix ..).isInfix
      exact survives_of_shared (x := []) (y := []) hvalid (append_nil _).symm (ne_nil_of_length_pos hi)
        hwithin (.inl rfl) (.inl rfl) (by rwa [nil_append, append_nil])
    · refine survives_of_shared (x := []) hvalid hstarts.symm (fun hnil => ?_) (drop_suffix ..).isInfix
        (.inl rfl) (.inr (drop_suffix ..)) ⟨injectedMarker.take j, [], ?_⟩
      · exact absurd (drop_eq_nil_iff.1 hnil) (Nat.not_le.2 hj)
      · rw [← hstarts, append_nil, ← append_assoc, take_append_drop, nil_append]
  · have hsplit := (take_append_drop i literal).symm
    rw [drop_zero] at hagree
    rcases hagree with hinside | ⟨y, hstarts⟩
    · refine survives_of_shared (y := []) hvalid (by rwa [append_nil]) (fun hnil => ?_) hinside.isInfix
        (.inr ⟨hhead, hinside⟩) (.inl rfl) ?_
      · exact absurd (drop_eq_nil_iff.1 hnil) (Nat.not_le.2 hi)
      · nth_rewrite 1 [hsplit]
        rw [append_nil]
        exact ((prefix_append_right_inj _).2 hinside).isInfix
    · rw [← hstarts] at hsplit
      exact survives_of_shared hvalid hsplit (by decide) infix_rfl (.inr ⟨hhead, prefix_rfl⟩)
        (.inr suffix_rfl) (hsplit ▸ infix_rfl)

/-- Every output is free of a secret and of its encodings, exactly if the secret does not meet the
    marker. -/
theorem injected_output_free_of_iff {literal : Bytes} (hvalid : Utf8.Valid literal) (hne : literal ≠ []) :
    (∀ body, Utf8.Valid body → FreeOf literal (scrubInjectedOutput body literal)) ↔
      ¬Meets literal injectedMarker := by
  constructor
  · intro hfree hmeets
    obtain ⟨body, hbody, hleft⟩ := survives_of_meets hvalid hmeets
    exact hleft (hfree body hbody)
  · intro hmeets body _ variant hvariant
    have hnonempty := injectedVariants_ne_nil hne
    have hsearched := mem_injectedVariants.2 hvariant
    refine not_contains_foldl hnonempty (hnonempty variant hsearched) ?_ (.inl hsearched)
    rcases List.mem_cons.1 hvariant with rfl | hencoded
    · exact hmeets
    · exact not_meets_of_encoded hencoded

theorem injected_output_free_of_hunter2 : (∀ body, Utf8.Valid body →
        FreeOf (Bytes.ascii "hunter2") (scrubInjectedOutput body (Bytes.ascii "hunter2"))) ∧
      ¬∀ body, Utf8.Valid body →
        FreeOf (Bytes.ascii "hunter2*") (scrubInjectedOutput body (Bytes.ascii "hunter2*")) :=
  ⟨(injected_output_free_of_iff (by decide) (by decide)).2 (by decide),
    fun hfree => (injected_output_free_of_iff (by decide) (by decide)).1 hfree (by decide)⟩
/-- The start of a secret that ends with an asterisk, with the secret behind it. -/
theorem secret_survives_injected_scrub :
    scrubInjectedOutput (Bytes.ascii "hunter2hunter2*") (Bytes.ascii "hunter2*") =
        Bytes.ascii "hunter2***REDACT***" ∧
      contains (scrubInjectedOutput (Bytes.ascii "hunter2hunter2*") (Bytes.ascii "hunter2*"))
        (Bytes.ascii "hunter2*") = true := by
  decide +kernel

end FlyCockpit.Redact
