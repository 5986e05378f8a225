import Framecast.Proofs.Fields.Barring

/-!
# Raw buffers of a run

Once the raw buffer of a property is set, its three words stay what they are for as long as
the instance lives. They were written at one moment of the run, by a write or by the
creation of the instance, and they were those of the buffer at that moment. Every later
attempt fails and leaves everything as it was.
-/

namespace Framecast

namespace Property

/-- The words of a property of three. -/
theorem words_of_count_three {p : Property} (hthree : p.count = 3) (part : Bytes) :
    p.words part = [part.word 0, part.word 1, part.word 2] := by
  unfold words
  rw [hthree]
  rfl

end Property

/-- Storage that was spared in one property. -/
def Storage.SparesSlice (prop : Property) (s s' : Storage) : Prop :=
  s' = s ∨ ∃ schema bytes bytes', s = .fields schema bytes ∧ s' = .fields schema bytes' ∧
    (prop ∈ schema.layout.props → prop.slice bytes' = prop.slice bytes)

namespace Registry

variable {r after : Registry} {x : ResourceId} {prop : Property} {value : Value}
  {words : List UInt32} {m : RegistryM Unit}

/-- Whether a raw buffer is set is a matter of the storage of its instance. -/
theorem isSet_iff {res : Resource} (hres : r.resource? x = some res) :
    r.IsSet x prop words ↔ ∃ schema bytes, res.storage = .fields schema bytes ∧
      prop ∈ schema.layout.props ∧ prop.kind = .arrayBuffer ∧ (prop.slice bytes).word 2 ≠ 0 ∧
        prop.words (prop.slice bytes) = words := by
  constructor
  · rintro ⟨found, schema, bytes, hfound, h⟩
    obtain rfl : res = found := Option.some.inj (hres.symm.trans hfound)
    exact ⟨schema, bytes, h⟩
  · rintro ⟨schema, bytes, h⟩
    exact ⟨res, schema, bytes, hres, h⟩

/-- Where a property is spared, its raw buffer is set as it was. -/
theorem isSet_iff_of_spared {res res' : Resource} (hres : r.resource? x = some res)
    (hres' : after.resource? x = some res') (h : res.storage.SparesSlice prop res'.storage) :
    r.IsSet x prop words ↔ after.IsSet x prop words := by
  rw [isSet_iff hres, isSet_iff hres']
  rcases h with heq | ⟨schema, bytes, bytes', hstorage, hstorage', hslice⟩
  · rw [heq]
  · rw [hstorage, hstorage']
    constructor
    · rintro ⟨_, _, hfields, hprop, hkind, hset, hwords⟩
      obtain ⟨rfl, rfl⟩ := Storage.fields.inj hfields
      rw [← hslice hprop] at hset hwords
      exact ⟨schema, bytes', rfl, hprop, hkind, hset, hwords⟩
    · rintro ⟨_, _, hfields, hprop, hkind, hset, hwords⟩
      obtain ⟨rfl, rfl⟩ := Storage.fields.inj hfields
      rw [hslice hprop] at hset hwords
      exact ⟨schema, bytes, rfl, hprop, hkind, hset, hwords⟩

/-- A property of which the raw buffer is set is found under its name. -/
theorem IsSet.prop?_eq (h : r.IsSet x prop words) (hw : r.WellFormed) {res : Resource}
    {schema : Schema} {bytes : Bytes} (hres : r.resource? x = some res)
    (hstorage : res.storage = .fields schema bytes) :
    schema.layout.prop? prop.name = some prop := by
  obtain ⟨found, _, _, hfound, hfields, hprop, -⟩ := h
  obtain rfl : found = res := Option.some.inj (hfound.symm.trans hres)
  obtain ⟨rfl, rfl⟩ := Storage.fields.inj (hfields.symm.trans hstorage)
  have hsound := hw.sound hres
  rw [hstorage] at hsound
  exact hsound.1.prop?_of_mem hprop

/-- A write to a raw buffer that is set is refused before anything is done. -/
theorem IsSet.ends_put (h : r.IsSet x prop words) (hw : r.WellFormed)
    (hm : IsPut x prop.name value m) :
    Ends m r (fun _ _ => False) (fun _ after => after = r) := by
  have hkind : prop.kind = .arrayBuffer := by
    obtain ⟨-, -, -, -, -, -, hkind, -⟩ := h
    exact hkind
  refine hm.ends_of (fun _ => rfl) fun res schema bytes found hres hstorage hfound => ?_
  obtain rfl : prop = found := Option.some.inj ((h.prop?_eq hw hres hstorage).symm.trans hfound)
  exact ends_writeProp_barred hkind h.bars value

/-- The words of a raw buffer that was entered are recorded. -/
theorem records_of_entered {buffer : RawBuffer}
    (hfits : r.supply.pool.length buffer ≤ maxBufferLength) {number : ResourceId}
    (hpayload : ∀ res, after.resource? number = some res → res.storage = .payload (.buffer buffer)) :
    r.Records after buffer (UInt32.ofNat (r.supply.pool.length buffer))
      (if buffer.isShared then 1 else 0) number := by
  refine ⟨?_, rfl, hpayload⟩
  unfold maxBufferLength at hfits
  rw [UInt32.toNat_ofNat', Nat.mod_eq_of_lt (by omega)]

/-- A write after which a raw buffer is set has set it to its value. -/
theorem ends_put_records (hw : r.WellFormed) (hl : r.supply.Lasts)
    (hm : IsPut x prop.name value m) :
    Ends m r
      (fun _ after => ∀ words, after.IsSet x prop words → ∃ buffer length flag number,
        value = .buffer buffer ∧ words = [length, flag, number] ∧
          r.Records after buffer length flag number)
      (fun _ _ => True) := by
  refine hm.ends_of (fun _ => trivial) fun res schema bytes found hres hstorage hfound => ?_
  have hne : x ≠ r.supply.nextId := ne_nextId (hw.numbered hres).2 hl
  refine ((ends_writeProp_alters hl x found value).and
    ((ends_writeProp_entered hres hstorage hne found value).and
      (ends_writeProp_fits x found value r))).imp ?_ fun _ _ _ => trivial
  rintro _ after ⟨⟨hvalid, halters⟩, hentered, hfits⟩ words
    ⟨res', _, _, hres', hstorage', hprop, hkind, -, rfl⟩
  obtain ⟨rfl, rfl⟩ := Storage.fields.inj
    (hstorage'.symm.trans (halters.storage_self hw hres hstorage hres'))
  have hsound := hw.sound hres
  rw [hstorage] at hsound
  obtain ⟨hmem, hname⟩ := Layout.mem_of_prop? hfound
  obtain rfl := hsound.1.eq_of_name hmem hprop hname
  obtain ⟨buffer, rfl⟩ := eq_buffer_of_validate hkind hvalid
  have hlength := hsound.1.length_slice hmem hsound.2
  refine ⟨buffer, _, _, r.supply.nextId, rfl, ?_,
    records_of_entered (hfits buffer rfl) fun other hother => ?_⟩
  · rw [hsound.1.slice_splice_self hmem hsound.2 ((r.length_encoding found _ _).trans hlength)]
    exact words_encoding_for (hsound.1.sound found hmem) hvalid hlength
  · obtain ⟨entered, hres, hpayload⟩ := buffer?_eq_some.mp (hentered buffer rfl)
    obtain rfl : entered = other := Option.some.inj (hres.symm.trans hother)
    exact hpayload

/-- A creation after which a raw buffer of the new instance is set has set it to the last value that
was given under its name. -/
theorem ends_createInstance_records {schema : Schema} (hw : r.WellFormed) (hi : r.IndexesLive)
    (hsound : schema.layout.IsSound) (props : List (String × Value)) (options : Options) :
    Ends (createInstance schema props options) r
      (fun x after => after.supply.Lasts → r.resource? x = none →
        ∀ prop words, after.IsSet x prop words → ∃ buffer length flag number,
          lastGiven? prop.name props = some (.buffer buffer) ∧ words = [length, flag, number] ∧
            r.Records after buffer length flag number)
      (fun _ _ => True) := by
  cases hcached : r.cached? schema.name options.cacheKey? with
  | some y =>
    refine (ends_createInstance_cached hsound props hcached).imp ?_ fun _ _ _ => trivial
    rintro x after ⟨rfl, -⟩ - hnone
    obtain ⟨res, hres, -⟩ := hi.of_cached? hcached
    rw [hnone] at hres
    cases hres
  | none =>
    refine ((ends_createInstance_written hw hi hsound props options hcached).and
      (ends_createInstance_fits hsound props options hcached)).imp ?_ fun _ _ _ => trivial
    rintro x after ⟨hwritten, hfits⟩ hl -
      prop words ⟨found, _, _, hfound, hfields, hprop, hkind, hset, rfl⟩
    obtain ⟨res, bytes, hres, hstorage, hwritten⟩ := hwritten hl
    obtain rfl : res = found := Option.some.inj (hres.symm.trans hfound)
    obtain ⟨rfl, rfl⟩ := Storage.fields.inj (hstorage.symm.trans hfields)
    have hthree := (hsound.sound prop hprop).count_eq 3 (by rw [hkind]; rfl)
    obtain ⟨hunset, hwritten⟩ := hwritten prop hprop (by rw [hkind]; rfl)
    cases hvalue : prop.resolved? props with
    | none =>
      have hzeros := hunset hvalue
      rw [prop.words_of_count_three hthree, hthree] at hzeros
      exact absurd (List.cons.inj (List.cons.inj (List.cons.inj hzeros).2).2).1 hset
    | some value =>
      obtain ⟨hgiven, buffer, rfl, hfits⟩ := hfits prop hprop hkind value hvalue
      obtain ⟨mid, -, hwords, hpool, hbears⟩ := hwritten _ hvalue
      have hlength : mid.supply.pool.length buffer = r.supply.pool.length buffer := by rw [hpool]
      refine ⟨buffer, _, _, _, hgiven, hwords, ?_⟩
      rw [hlength]
      exact records_of_entered hfits (hbears.buffer buffer rfl)

end Registry

namespace Moment

variable {m : Moment} {x : ResourceId} {prop : Property} {words : List UInt32}

/-- What puts a value into a property: a write that is done, or the creation of the instance. -/
theorem puts?_cases {name : String} {value? : Option Value} (h : m.puts? x name = some value?) :
    (∃ value op, value? = some value ∧ Registry.IsPut x name value op ∧
      m.before.step m.action = m.before.onRegistry op (fun _ => .done) ∧ m.answer = .done) ∨
    ∃ schema props options, m.action = .createInstance schema props options ∧
      m.answer = .created x ∧ m.before.registry.resource? x = none ∧
        value? = lastGiven? name props := by
  obtain ⟨b, action⟩ := m
  unfold puts? at h
  split at h
  · rename_i id written value haction hanswer
    obtain rfl : action = .setProp id written value := haction
    split at h
    · rename_i hsame
      obtain ⟨rfl, rfl⟩ := hsame
      cases h
      exact .inl ⟨value, _, rfl, .host, rfl, hanswer⟩
    · cases h
  · rename_i id written value haction hanswer
    obtain rfl : action = .setPropFromScript id written value := haction
    split at h
    · rename_i hsame
      obtain ⟨rfl, rfl⟩ := hsame
      cases h
      exact .inl ⟨value, _, rfl, .script, rfl, hanswer⟩
    · cases h
  · rename_i schema props options id haction hanswer
    obtain rfl : action = .createInstance schema props options := haction
    split at h
    · rename_i hsame
      obtain ⟨rfl, hnone⟩ := hsame
      cases h
      exact .inr ⟨schema, props, options, rfl, hanswer, hnone, rfl⟩
    · cases h
  · cases h

/-- Nothing is put into a raw buffer that is set. -/
theorem puts?_of_isSet (hw : m.before.registry.WellFormed)
    (h : m.before.registry.IsSet x prop words) : m.puts? x prop.name = none := by
  cases hputs : m.puts? x prop.name with
  | none => rfl
  | some value? =>
    rcases puts?_cases hputs with
      ⟨value, op, -, hop, hstep, hanswer⟩ | ⟨schema, props, options, -, -, hnone, -⟩
    · unfold answer at hanswer
      rw [hstep] at hanswer
      rcases (Broadcast.onRegistry_ends (h.ends_put hw hop) fun _ => .done).1 with
        ⟨_, -, hfalse⟩ | ⟨e, hfailed, -⟩
      · exact hfalse.elim
      · cases hanswer.symm.trans hfailed
    · obtain ⟨res, _, _, hres, -⟩ := h
      rw [hnone] at hres
      cases hres

/-- What is live after an action that puts nothing into a property was live before, and was spared in
that property, or it is a payload with a new number. -/
theorem spares_slice (h : m.Alters) (hw : m.before.registry.WellFormed) {res' : Resource}
    (hres' : m.after.registry.resource? x = some res') (hputs : m.puts? x prop.name = none) :
    (∃ res, m.before.registry.resource? x = some res ∧
        res.storage.SparesSlice prop res'.storage) ∨
      m.before.registry.supply.issued < x.toNat ∧ ∃ p, res'.storage = .payload p := by
  cases h with
  | spares h _ =>
    exact (h.origin hres').imp_left fun ⟨res, hres, heq⟩ => ⟨res, hres, .inl heq⟩
  | @puts id name value h hgiven =>
    obtain ⟨found, schema, bytes, written, hfound, hstorage, hwritten, -, halters⟩ := h
    refine (halters.origin hres').imp_left ?_
    rintro ⟨res, hres, hspliced⟩
    refine ⟨res, hres, ?_⟩
    unfold Storage.Spliced at hspliced
    split at hspliced
    · rename_i hx
      subst hx
      obtain rfl : found = res := Option.some.inj (hfound.symm.trans hres)
      obtain ⟨schema', bytes', hfields, hspliced⟩ := hspliced
      obtain ⟨rfl, rfl⟩ := Storage.fields.inj (hstorage.symm.trans hfields)
      refine .inr ⟨schema, bytes, _, hstorage, hspliced, fun hprop => ?_⟩
      have hsound := hw.sound hres
      rw [hstorage] at hsound
      obtain ⟨hmem, hname⟩ := Layout.mem_of_prop? hwritten
      have hne : written ≠ prop := by
        rintro rfl
        rw [hgiven, if_pos ⟨rfl, hname.symm⟩] at hputs
        cases hputs
      exact hsound.1.slice_splice_of_ne hmem hprop hne hsound.2
        ((Registry.length_encoding _ written value _).trans
          (hsound.1.length_slice hmem hsound.2))
    · exact .inl hspliced
  | @founds id schema props options bytes values _ _ h hgiven =>
    have hx : x ≠ id := by
      rintro rfl
      rw [hgiven, if_pos rfl] at hputs
      cases hputs
    exact (h.others hx hres').imp_left fun ⟨res, hres, heq⟩ => ⟨res, hres, .inl heq⟩

/-- A raw buffer that is set stays set, as the same words, while the instance lives. -/
theorem isSet_after (h : m.Alters) (hw : m.before.registry.WellFormed)
    (hset : m.before.registry.IsSet x prop words) {res' : Resource}
    (hres' : m.after.registry.resource? x = some res') : m.after.registry.IsSet x prop words := by
  rcases spares_slice h hw hres' (puts?_of_isSet hw hset) with ⟨res, hres, hspared⟩ | ⟨hnew, -⟩
  · exact (Registry.isSet_iff_of_spared hres hres' hspared).mp hset
  · obtain ⟨res, _, _, hres, -⟩ := hset
    exact absurd (hw.numbered hres).2 (Nat.not_le_of_lt hnew)

/-- A moment at which the raw buffer of a property is set. -/
structure Sets (m : Moment) (x : ResourceId) (prop : Property) (words : List UInt32) : Prop where
  /-- It was not set before. -/
  unset : ∀ before, ¬m.before.registry.IsSet x prop before
  /-- A raw buffer is put into the property, by a write or by the creation of the instance, and the
  words are what it is recorded as. -/
  given : ∃ buffer length flag number, m.puts? x prop.name = some (some (.buffer buffer)) ∧
    words = [length, flag, number] ∧
      m.before.registry.Records m.after.registry buffer length flag number
  /-- It is set afterwards. -/
  set : m.after.registry.IsSet x prop words

/-- A raw buffer that is set after an action was set before, or the action has set it. -/
theorem isSet_before_or_sets (h : m.Alters) (hc : m.action.IsCompiled)
    (hw : m.before.registry.WellFormed) (hi : m.before.registry.IndexesLive)
    (hl : m.before.registry.supply.Lasts) (hl' : m.after.registry.supply.Lasts)
    (hset : m.after.registry.IsSet x prop words) :
    m.before.registry.IsSet x prop words ∨ m.Sets x prop words := by
  obtain ⟨b, action⟩ := m
  cases hputs : Moment.puts? ⟨b, action⟩ x prop.name with
  | none =>
    obtain ⟨res', schema, bytes, hres', hstorage', -⟩ := id hset
    rcases spares_slice h hw hres' hputs with ⟨res, hres, hspared⟩ | ⟨-, p, hp⟩
    · exact .inl ((Registry.isSet_iff_of_spared hres hres' hspared).mpr hset)
    · rw [hp] at hstorage'
      cases hstorage'
  | some value? =>
    refine .inr ⟨fun before hbefore => ?_, ?_, hset⟩
    · rw [puts?_of_isSet hw hbefore] at hputs
      cases hputs
    rcases puts?_cases hputs with
      ⟨value, op, rfl, hop, hstep, hanswer⟩ | ⟨schema, props, options, haction, hanswer, hnone, rfl⟩
    · have hset' : (b.step action).2.registry.IsSet x prop words := hset
      unfold answer at hanswer
      rw [hstep] at hanswer hset'
      rcases (Broadcast.onRegistry_ends (Registry.ends_put_records hw hl hop) fun _ => .done).1 with
        ⟨_, -, hrecords⟩ | ⟨e, hfailed, -⟩
      · obtain ⟨buffer, length, flag, number, rfl, hwords, hrecords⟩ := hrecords words hset'
        rw [← hstep] at hrecords
        exact ⟨buffer, length, flag, number, hputs, hwords, hrecords⟩
      · cases hanswer.symm.trans hfailed
    · obtain rfl : action = .createInstance schema props options := haction
      rcases (Broadcast.onRegistry_ends (Registry.ends_createInstance_records hw hi hc.isSound props
        options) .created).1 with ⟨made, hmade, hrecords⟩ | ⟨e, hfailed, -⟩
      · obtain rfl : x = made := Answer.created.inj (hanswer.symm.trans hmade)
        obtain ⟨buffer, length, flag, number, hgiven, hwords, hrecords⟩ :=
          hrecords hl' hnone prop words hset
        rw [hgiven] at hputs
        exact ⟨buffer, length, flag, number, hputs, hwords, hrecords⟩
      · cases hanswer.symm.trans hfailed

end Moment

/-- What becomes of the raw buffers of instances in a run. -/
structure SetsOnce (past : List Moment) (b : Broadcast) : Prop where
  /-- What was set at some moment is set to the same three words now, if the instance is still
  live. -/
  stays : ∀ m ∈ past, ∀ x prop words res, m.before.registry.IsSet x prop words →
    b.registry.resource? x = some res → b.registry.IsSet x prop words
  /-- What is set was set at some moment, to the words of the buffer that was given then. -/
  set : ∀ x prop words, b.registry.IsSet x prop words → ∃ m ∈ past, m.Sets x prop words
  /-- A later write of the host or of a script fails and leaves everything as it was. -/
  refused : ∀ x prop words, b.registry.IsSet x prop words → ∀ value action,
    action = .setProp x prop.name value ∨ action = .setPropFromScript x prop.name value →
      ∃ e, b.step action = (.failed e, b)
  /-- So does any write on the way of a creation, in whatever state the registry is then. -/
  attempted : ∀ (r : Registry) x prop words, r.IsSet x prop words → ∀ value,
    ∃ e, (Registry.writeProp x prop value).run r = .error e r
  /-- So a creation fails that gives several values for one raw buffer. -/
  repeated : ∀ (schema : Schema) props options, schema.layout.IsCompiled →
    ∀ prop ∈ schema.layout.props, prop.kind = .arrayBuffer →
      1 < (props.filter (·.1 == prop.name)).length →
        b.registry.cached? schema.name options.cacheKey? = none →
          (b.step (.createInstance schema props options)).2.registry.supply.Lasts →
            ∃ e, (b.step (.createInstance schema props options)).1 = .failed e

namespace Run

variable {config : Config} {supply : Supply} {past : List Moment} {b : Broadcast}

/-- What was set at some moment of a run stays set while the instance lives. -/
theorem isSet_stays (h : Run (.opened config supply) past b)
    (hc : ∀ m ∈ past, m.action.IsCompiled) (hl : b.registry.supply.Lasts) {m : Moment}
    (hm : m ∈ past) {x : ResourceId} {prop : Property} {words : List UInt32}
    (hset : m.before.registry.IsSet x prop words) {res : Resource}
    (hres : b.registry.resource? x = some res) : b.registry.IsSet x prop words := by
  induction h generalizing res with
  | nil => cases hm
  | @snoc past b h action ih =>
    have hone : action.IsCompiled := hc ⟨b, action⟩ List.mem_cons_self
    have hrest : ∀ m ∈ past, m.action.IsCompiled := fun m hm => hc m (List.mem_cons_of_mem _ hm)
    have hlb : b.registry.supply.Lasts := hl.mono (b.issued_le_step hone)
    have hw := h.wellFormed hrest hlb
    have halters := b.alters_step hone hw hl
    rcases List.mem_cons.mp hm with rfl | hm
    · exact Moment.isSet_after halters hw hset hres
    · -- the instance was live before the last action, because its number had been given out
      obtain ⟨later, earlier, rfl, hbefore, hissued⟩ := h.before_of_mem hrest hm
      obtain ⟨found, _, _, hfound, -⟩ := id hset
      have hold := ((hbefore.wellFormed (fun m' hm' => hrest m'
        (List.mem_append_right _ (List.mem_cons_of_mem _ hm'))) (hlb.mono hissued)).numbered
          hfound).2
      obtain ⟨res₀, hres₀, -⟩ := Broadcast.origin_step hone hw hl (hold.trans hissued) hres
      exact Moment.isSet_after (m := ⟨b, action⟩) halters hw (ih hrest hlb hm hres₀) hres

/-- What is set in a run was set at one of its moments. -/
theorem sets_of_isSet (h : Run (.opened config supply) past b)
    (hc : ∀ m ∈ past, m.action.IsCompiled) (hl : b.registry.supply.Lasts) {x : ResourceId}
    {prop : Property} {words : List UInt32} (hset : b.registry.IsSet x prop words) :
    ∃ m ∈ past, m.Sets x prop words := by
  induction h with
  | nil =>
    obtain ⟨res, _, _, hres, -⟩ := hset
    rw [Broadcast.resource?_opened] at hres
    cases hres
  | @snoc past b h action ih =>
    have hone : action.IsCompiled := hc ⟨b, action⟩ List.mem_cons_self
    have hrest : ∀ m ∈ past, m.action.IsCompiled := fun m hm => hc m (List.mem_cons_of_mem _ hm)
    have hlb : b.registry.supply.Lasts := hl.mono (b.issued_le_step hone)
    have hw := h.wellFormed hrest hlb
    rcases Moment.isSet_before_or_sets (m := ⟨b, action⟩) (b.alters_step hone hw hl) hone hw
      (h.indexesLive hrest hlb) hlb hl hset with hbefore | hsets
    · obtain ⟨m, hm, hsets⟩ := ih hrest hlb hbefore
      exact ⟨m, List.mem_cons_of_mem _ hm, hsets⟩
    · exact ⟨_, List.mem_cons_self, hsets⟩

/-- Whatever was done, the raw buffer of a property is set once in the life of an instance: to the
length and the mutability of the buffer that was given then, and to its number. From then on the
words are what they are while the instance lives, and every attempt to write them fails and leaves
everything as it was. This holds while fewer than `2 ^ 32 - 1` numbers have been given out. -/
theorem sets_once (h : Run (.opened config supply) past b)
    (hc : ∀ m ∈ past, m.action.IsCompiled) (hl : b.registry.supply.Lasts) : SetsOnce past b := by
  have hw := h.wellFormed hc hl
  have hi := h.indexesLive hc hl
  have hrefused {x : ResourceId} {prop : Property} {words : List UInt32}
      (hset : b.registry.IsSet x prop words) {value : Value} {op : RegistryM Unit}
      (hop : Registry.IsPut x prop.name value op) :
      ∃ e, b.onRegistry op (fun _ => .done) = (.failed e, b) := by
    have hends := hset.ends_put hw hop
    unfold Broadcast.onRegistry
    split
    · exact (hends.of_ok ‹_›).elim
    · rename_i e after hrun
      exact ⟨e, by rw [hends.of_error hrun]⟩
  constructor
  · exact fun m hm x prop words res hset hres => h.isSet_stays hc hl hm hset hres
  · exact fun x prop words hset => h.sets_of_isSet hc hl hset
  · rintro x prop words hset value action (rfl | rfl)
    · exact hrefused hset .host
    · exact hrefused hset .script
  · intro r x prop words hset value
    have hkind : prop.kind = .arrayBuffer := by
      obtain ⟨-, -, -, -, -, -, hkind, -⟩ := hset
      exact hkind
    have hends := Registry.ends_writeProp_barred hkind hset.bars value
    cases hrun : (Registry.writeProp x prop value).run r with
    | ok u after => exact (hends.of_ok hrun).elim
    | error e after => exact ⟨e, by rw [hends.of_error hrun]⟩
  · intro schema props options hcompiled prop hprop hkind htwice huncached hlast
    rcases (Broadcast.onRegistry_ends (Registry.ends_createInstance_once hw hcompiled.isSound hprop
      hkind props options huncached) .created).1 with ⟨made, -, honce⟩ | ⟨e, hfailed, -⟩
    · exact absurd (honce hlast) (Nat.not_le_of_lt htwice)
    · exact ⟨e, hfailed⟩

end Run

namespace Samples

/-- The body of a page. -/
def body : Property := (Declaration.ofKind "body" .arrayBuffer).place 8

/-- A page whose body is set to a shared buffer of two bytes. -/
def bodied : List Moment × Broadcast :=
  (Broadcast.opened ⟨.game, 4⟩ ⟨0, 2, .insert ∅ 1 [7, 8]⟩).play
    [.createInstance ⟨0, page⟩ [] {}, .setProp 1 "body" (.buffer (.shared 1))]

/-- The pool with one more byte in the shared buffer. -/
def grownPool : BufferPool := ⟨2, .insert ∅ 1 [7, 8, 9]⟩

/-- The moment at which the buffer grows. -/
def growing : Moment := ⟨bodied.2, .elsewhere 0 grownPool⟩

/-- The moment after it, at which the buffer is disposed of. -/
def discarding : Moment := ⟨growing.after, .dispose 3⟩

theorem isCompiled_bodied : ∀ m ∈ discarding :: growing :: bodied.1, m.action.IsCompiled :=
  List.forall_mem_cons.mpr ⟨trivial, List.forall_mem_cons.mpr ⟨trivial,
    Broadcast.isCompiled_play _ (by simp [Action.IsCompiled, isCompiled_page])⟩⟩

/-- The body of the page is set to two shared bytes, under the number 3. -/
theorem isSet_bodied : bodied.2.registry.IsSet 1 body [2, 1, 3] := by
  have hbytes : (bodied.2.registry.resource? 1).map Resource.storage = some (.fields ⟨0, page⟩
      [2, 0, 0, 0, 5, 0, 0, 0, 2, 0, 0, 0, 1, 0, 0, 0, 3, 0, 0, 0, 0, 0, 0, 0, 0, 0, 0, 0, 0, 0, 0,
        0, 0, 0, 0, 0]) := by decide +kernel
  obtain ⟨res, hres, hstorage⟩ := Option.map_eq_some_iff.mp hbytes
  exact ⟨res, _, _, hres, hstorage, by decide +kernel, rfl, by decide +kernel, by decide +kernel⟩

/-- The words stay although the buffer grows and is disposed of. The body cannot be set again, and no
page can be created with two bodies. -/
theorem sets_once_bodied :
    discarding.after.registry.IsSet 1 body [2, 1, 3] ∧
      discarding.after.registry.supply.pool.length (.shared 1) = 3 ∧
      discarding.after.registry.resource? 3 = none ∧
      (∃ e, discarding.after.step (.setProp 1 "body" (.buffer (.frozen 2 [6]))) =
        (.failed e, discarding.after)) ∧
      ∃ e, (discarding.after.step (.createInstance ⟨0, page⟩
        [("body", .buffer (.frozen 2 [6])), ("body", .buffer (.frozen 3 [5]))] {})).1 =
          .failed e := by
  have hrun : Run (.opened ⟨.game, 4⟩ ⟨0, 2, .insert ∅ 1 [7, 8]⟩)
      (discarding :: growing :: bodied.1) discarding.after := ((Run.play _ _).snoc _).snoc _
  have honce := Run.sets_once hrun isCompiled_bodied (by decide +kernel)
  have hlive : (discarding.after.registry.resource? 1).isSome = true := by decide +kernel
  obtain ⟨res, hres⟩ := Option.isSome_iff_exists.mp hlive
  have hset : discarding.after.registry.IsSet 1 body [2, 1, 3] :=
    honce.stays growing (by simp) 1 body [2, 1, 3] res isSet_bodied hres
  exact ⟨hset, by decide +kernel, Option.isNone_iff_eq_none.mp (by decide +kernel),
    honce.refused 1 body _ hset _ _ (.inl rfl),
    honce.repeated _ _ _ isCompiled_page body (by decide +kernel) rfl (by decide +kernel)
      (by decide +kernel) (by decide +kernel)⟩

end Samples

end Framecast
