import SourceRename.Proofs.Edit.Draft
import SourceRename.Proofs.Edit.Growth
import SourceRename.Proofs.Syntax.Geometry
import SourceRename.Rename.Java

/-!
# What renaming a node writes

`cx.Writes site symbol e` says, without a draft, which replacement `e` renaming a node by its symbol
may queue: one new name, in the place of an identifier among the direct tokens, of the whole node,
or of the whole node around it.  In whatever draft a node is renamed, only such places are queued,
and a node around it only where it is free (`Context.extends_rename`, `Site.Allows`).  If what is
nearby is not empty and the node is free, it is at most one replacement, and a free one
(`Context.adds_rename`):

    (cx.rename site symbol d).edits = d.edits   or   d.edits.queue e.span e.text

A list of overridden symbols needs the freeness: it is gone through until a replacement adds an
entry, so a span that is listed already could be queued again. -/

namespace SourceRename

/-! ### Places -/

/-- The spans of a direct token, of the node and of the node around it. -/
inductive Site.Nearby (site : Site) : Span → Prop
  | token {t : Token} : t ∈ site.directTokens → Nearby site t.span
  | whole : Nearby site site.span
  | around {p : Site} : site.parent? = some p → Nearby site p.span

theorem SourceFile.Lossless.cut_of_nearby {f : SourceFile} (hf : f.Lossless) {site : Site} {s : Span}
    (hsite : site ∈ f.sites) (h : site.Nearby s) :
    Cut f.text.toList s.start ∧ Cut f.text.toList s.stop := by
  have hnode : ∀ {q}, q ∈ f.sites →
      Cut f.text.toList q.span.start ∧ Cut f.text.toList q.span.stop :=
    fun hq => ⟨(hf.standsIn hq).cut_start, (hf.standsIn hq).cut_stop⟩
  cases h with
  | token ht => exact (hf.standsIn hsite).cut_token ht
  | whole => exact hnode hsite
  | around hp => exact hnode (mem_of_parent? hsite hp).1

theorem SourceFile.Lossless.start_lt_of_nearby {f : SourceFile} (hf : f.Lossless) {site : Site}
    {s : Span} (hsite : site ∈ f.sites) (hwide : site.span.start < site.span.stop)
    (h : site.Nearby s) : s.start < s.stop := by
  cases h with
  | token ht => exact (hf.standsIn hsite).token_nonempty ht
  | whole => exact hwide
  | around hp =>
    have := Site.within_of_mem_nodes (mem_of_parent? hsite hp).2
    omega

/-- **What is nearby a node that does not lie in another one** stands apart from that other one, or
it is the span of a node around it. -/
theorem Site.Nearby.apart_or_around {f : SourceFile} {site n : Site} {s : Span} (h : site.Nearby s)
    (hsite : site ∈ f.sites) (hn : n ∈ f.sites) (hout : site ∉ n.preorder) :
    s.Apart n.span ∨ ∃ m ∈ n.enclosing, m.span = s := by
  have hnode : ∀ p ∈ f.sites, p ∉ n.preorder →
      p.span.Apart n.span ∨ ∃ m ∈ n.enclosing, m.span = p.span := by
    intro p hp hnot
    have hne : p ≠ n := fun h => hnot (h ▸ List.mem_cons_self)
    rcases Site.below_or_apart hp hn hne with hbelow | hbelow | hapart
    · exact .inr ⟨p, (Site.mem_enclosing_iff hp hn).2 hbelow, rfl⟩
    · exact absurd (List.mem_cons_of_mem n hbelow) hnot
    · exact .inl hapart
  cases h with
  | @token t ht =>
    have hin := Site.within_of_mem_directTokens ht
    have hne : site ≠ n := fun h => hout (h ▸ List.mem_cons_self)
    rcases Site.below_or_apart hsite hn hne with hbelow | hbelow | hbefore | hbehind
    · exact .inl (Site.apart_of_mem_directTokens ht hbelow)
    · exact absurd (List.mem_cons_of_mem n hbelow) hout
    · exact .inl (.inl (by omega))
    · exact .inl (.inr (by omega))
  | whole => exact hnode site hsite hout
  | @around p hp =>
    obtain ⟨hpf, hchild⟩ := SourceFile.mem_of_parent? hsite hp
    refine hnode p hpf fun hin => hout ?_
    exact Site.preorder_trans hin (List.mem_cons_of_mem p (Site.mem_below_of_mem_nodes hchild))

/-- What renaming a node may queue: an identifier of it, the whole of it, and the whole of a
qualified name or a call just around it in which nothing has been replaced. -/
inductive Site.Allows (site : Site) (es : Edits) : Span → Prop
  | token {t : Token} : t ∈ site.directTokens → Allows site es t.span
  | whole : Allows site es site.span
  | around {p : Site} : site.parent? = some p →
      p.kind = .userType ∨ p.kind = .dotQualified ∨ p.kind = .callExpr →
      es.isFree p.span = true → Allows site es p.span

theorem Site.Allows.nearby {site : Site} {es : Edits} {s : Span} (h : site.Allows es s) :
    site.Nearby s := by
  cases h with
  | token ht => exact .token ht
  | whole => exact .whole
  | around hp => exact .around hp

namespace Context

variable {cx : Context} {site : Site} {d : Draft} {symbol : Symbol} {e : Edit} {m : Method}
  {qualified new : String}

theorem mem_directTokens_of_nameToken? {name : String} {t : Token}
    (h : nameToken? site name = some t) : t ∈ site.directTokens := by
  have hfirst : ∀ u, site.firstIdent? = some u → u ∈ site.idents :=
    fun u hu => List.mem_of_head? hu
  apply Site.mem_directTokens_of_mem_idents
  unfold nameToken? at h
  split at h
  · rcases Option.or_eq_some_iff.1 h with h | ⟨-, h⟩
    · exact List.mem_of_find?_eq_some h
    · exact hfirst t h
  · exact List.mem_of_getLast? h

theorem extends_replaceName (site : Site) (old new : String) (d : Draft) :
    d.Extends site.Allows (replaceName site old new d) := by
  rw [replaceName]
  split
  · next t h => exact .replace new (.token (mem_directTokens_of_nameToken? h))
  · exact .refl d

theorem extends_renameField (cx : Context) (site : Site) (field : Field) (d : Draft) :
    d.Extends site.Allows (cx.renameField site field d) := by
  rw [renameField]
  split
  · exact .refl d
  · split
    · exact .refl d
    · have hname := extends_replaceName site field.name
      split
      · exact (hname _ d).trans (.report _ _ _)
      · exact hname _ d

theorem extends_renameQualified (cx : Context) (site : Site) (qualified lookup : String)
    (d : Draft) : d.Extends site.Allows (cx.renameQualified site qualified lookup d) := by
  rw [renameQualified]
  split
  · exact .refl d
  · dsimp only
    split
    · exact .replace _ .whole
    · split
      · next p h =>
        obtain ⟨hparent, hp⟩ := Option.filter_eq_some_iff.1 h
        simp only [Bool.and_eq_true, Bool.or_eq_true, beq_iff_eq] at hp
        split
        · next hfree => exact .replace _ (.around hparent (hp.1.imp_right .inl) hfree)
        · exact .refl d
      · exact extends_replaceName site _ _ d

/-- A call that becomes a property is the node around the name. -/
theorem getterCall?_eq_some {span : Span} {property : String}
    (h : cx.getterCall? site m new d = some (span, property)) :
    Naming.propertyOfGetter? new = some property ∧
      ∃ p, site.parent? = some p ∧ p.kind = .callExpr ∧ p.span = span ∧
        d.isFree span = true := by
  unfold getterCall? at h
  split at h
  · simp at h
  · obtain ⟨-, -, h⟩ := Option.bind_eq_some_iff.1 h
    obtain ⟨found, hfound, h⟩ := Option.bind_eq_some_iff.1 h
    obtain ⟨call, hcall, h⟩ := Option.bind_eq_some_iff.1 h
    obtain ⟨rfl, rfl⟩ := Prod.mk.inj (Option.some.inj h)
    obtain ⟨p, hp, hcall⟩ := Option.bind_eq_some_iff.1 hcall
    obtain ⟨hparent, hkind⟩ := Option.filter_eq_some_iff.1 hp
    dsimp only at hcall
    split at hcall
    · simp at hcall
    · next hfree =>
      obtain rfl := Option.some.inj hcall
      rw [Bool.or_eq_true, not_or, Bool.not_eq_true', Bool.not_eq_false] at hfree
      exact ⟨hfound, p, hparent, beq_iff_eq.1 hkind, rfl, hfree.2⟩

theorem extends_renameMethod (cx : Context) (site : Site) (m : Method) (d : Draft) :
    d.Extends site.Allows (cx.renameMethod site m d) := by
  rw [renameMethod]
  split
  · split
    · exact cx.extends_renameQualified site _ _ d
    · exact .refl d
  · split
    · exact .refl d
    · split
      · exact .refl d
      · split
        · exact extends_replaceName site _ _ d
        · split
          · next h =>
            obtain ⟨-, p, hparent, hkind, rfl, hfree⟩ := getterCall?_eq_some h
            exact .replace _ (.around hparent (.inr (.inr hkind)) hfree)
          · exact extends_replaceName site _ _ d

theorem extends_renameProperty (cx : Context) (site : Site) (getter : Method) (d : Draft) :
    d.Extends site.Allows (cx.renameProperty site getter d) := by
  rw [renameProperty]
  split
  · exact .refl d
  · split
    · exact .refl d
    · split
      · exact .refl d
      · next t h =>
        exact .replace _ (.token (Site.mem_directTokens_of_mem_idents (List.mem_of_getLast? h)))

mutual

/-- **Renaming a node only queues what the node allows.** -/
theorem extends_rename (cx : Context) (site : Site) :
    (symbol : Symbol) → (d : Draft) → d.Extends site.Allows (cx.rename site symbol d)
  | .field f, d => by simpa only [rename] using cx.extends_renameField site f d
  | .method m, d => by simpa only [rename] using cx.extends_renameMethod site m d
  | .function m, d => by simpa only [rename] using cx.extends_renameMethod site m d
  | .classType name, d => by
    simpa only [rename, renameClass] using cx.extends_renameQualified site _ _ d
  | .package name, d => by simpa only [rename] using cx.extends_renameQualified site name name d
  | .property getter, d => by simpa only [rename] using cx.extends_renameProperty site getter d
  | .compiled overridden, d => by
    simpa only [rename] using cx.extends_renameFirst site overridden d

theorem extends_renameFirst (cx : Context) (site : Site) :
    (symbols : List Symbol) → (d : Draft) → d.Extends site.Allows (cx.renameFirst site symbols d)
  | [], d => by
    rw [renameFirst]
    exact .refl d
  | symbol :: symbols, d => by
    have hone := cx.extends_rename site symbol d
    rw [renameFirst]
    split
    · exact hone.trans (cx.extends_renameFirst site symbols _)
    · exact hone

end

theorem extends_renameSite (cx : Context) (site : Site) (d : Draft) :
    d.Extends site.Allows (cx.renameSite site d) := by
  rw [renameSite]
  split
  · exact cx.extends_rename site _ d
  · exact .refl d

/-! ### Names -/

/-- A reference to a class or package gets the new qualified name where the old one is spelled out,
in the node or in the one around it, and the new simple name elsewhere. -/
inductive WritesQualified (site : Site) (qualified new : String) : Edit → Prop
  | whole : site.text = qualified → WritesQualified site qualified new ⟨site.span, new⟩
  | around {p : Site} : site.parent? = some p → p.kind = .userType ∨ p.kind = .dotQualified →
      p.text = qualified → WritesQualified site qualified new ⟨p.span, new⟩
  | simple {t : Token} : nameToken? site (Naming.simpleName qualified) = some t →
      WritesQualified site qualified new ⟨t.span, Naming.simpleName new⟩

/-- A use of a method gets the new name of the method, or the call around it becomes the property
behind a getter of that name; a constructor is written like its class. -/
inductive WritesMethod (cx : Context) (site : Site) (m : Method) : Edit → Prop
  | owner {c : ClassRename} {e : Edit} : m.isConstructor = true →
      cx.renames.find? m.owner.binary = some c →
      WritesQualified site m.owner.qualified c.newQualified e → WritesMethod cx site m e
  | name {new : String} {t : Token} : cx.methodName? m = some new →
      nameToken? site m.name = some t → WritesMethod cx site m ⟨t.span, new⟩
  | call {new property : String} {p : Site} : cx.methodName? m = some new →
      Naming.propertyOfGetter? new = some property → site.parent? = some p → p.kind = .callExpr →
      WritesMethod cx site m ⟨p.span, property⟩

inductive Writes (cx : Context) (site : Site) : Symbol → Edit → Prop
  | field {f : Field} {new : String} {t : Token} : cx.fieldName? f = some new →
      nameToken? site f.name = some t → Writes cx site (.field f) ⟨t.span, new⟩
  | method {m : Method} {e : Edit} : WritesMethod cx site m e → Writes cx site (.method m) e
  | function {m : Method} {e : Edit} : WritesMethod cx site m e → Writes cx site (.function m) e
  | classType {name : ClassName} {c : ClassRename} {e : Edit} :
      cx.renames.find? name.binary = some c →
      WritesQualified site name.qualified c.newQualified e → Writes cx site (.classType name) e
  | package {name : String} {c : ClassRename} {e : Edit} : cx.renames.find? name = some c →
      WritesQualified site name c.newQualified e → Writes cx site (.package name) e
  | property {getter : Method} {new : String} {t : Token} : cx.methodName? getter = some new →
      site.lastIdent? = some t →
      Writes cx site (.property getter) ⟨t.span, (Naming.propertyOfGetter? new).getD (new ++ "()")⟩
  | compiled {overridden : List Symbol} {symbol : Symbol} {e : Edit} : symbol ∈ overridden →
      Writes cx site symbol e → Writes cx site (.compiled overridden) e

theorem WritesQualified.nearby (h : WritesQualified site qualified new e) :
    site.Nearby e.span := by
  cases h with
  | whole => exact .whole
  | around hparent => exact .around hparent
  | simple ht => exact .token (mem_directTokens_of_nameToken? ht)

theorem WritesMethod.nearby (h : WritesMethod cx site m e) : site.Nearby e.span := by
  cases h with
  | owner _ _ h => exact h.nearby
  | name _ ht => exact .token (mem_directTokens_of_nameToken? ht)
  | call _ _ hparent => exact .around hparent

theorem Writes.nearby (h : cx.Writes site symbol e) : site.Nearby e.span := by
  induction h with
  | field _ ht => exact .token (mem_directTokens_of_nameToken? ht)
  | method h => exact h.nearby
  | function h => exact h.nearby
  | classType _ h => exact h.nearby
  | package _ h => exact h.nearby
  | property _ ht => exact .token (Site.mem_directTokens_of_mem_idents (List.mem_of_getLast? ht))
  | compiled _ _ ih => exact ih

end Context

/-! ### One free replacement -/

/-- Nothing is queued, or one free replacement for which `P` holds. -/
def Draft.Adds (P : Edit → Prop) (d d' : Draft) : Prop :=
  d'.edits = d.edits ∨
    ∃ e, P e ∧ d.isFree e.span = true ∧ d'.edits = d.edits.queue e.span e.text

namespace Draft.Adds

variable {P Q : Edit → Prop} {d d' : Draft} {span : Span} {text : String}

theorem refl (d : Draft) : d.Adds P d := .inl rfl

theorem mono (hPQ : ∀ e, P e → Q e) (h : d.Adds P d') : d.Adds Q d' := by
  rcases h with h | ⟨e, he, h⟩
  · exact .inl h
  · exact .inr ⟨e, hPQ e he, h⟩

theorem of_edits_eq {c : Draft} (hsame : c.edits = d.edits) (h : c.Adds P d') : d.Adds P d' := by
  rcases h with h | ⟨e, he, hfree, h⟩
  · exact .inl (h.trans hsame)
  · rw [Draft.isFree, hsame] at hfree
    exact .inr ⟨e, he, hfree, hsame ▸ h⟩

theorem replace (hP : P ⟨span, text⟩) (hfree : d.isFree span = true) :
    d.Adds P (d.replace span text) := by
  rw [Draft.replace]
  split
  · exact refl d
  · exact .inr ⟨⟨span, text⟩, hP, hfree, rfl⟩

end Draft.Adds

namespace Context

variable {cx : Context} {site : Site} {d : Draft} {P : Edit → Prop} {old new : String}

/-! The node is free, and so are its identifiers. -/

section

variable (hfree : d.isFree site.span = true)
include hfree

theorem isFree_token {t : Token} (ht : t ∈ site.directTokens) : d.isFree t.span = true :=
  Edits.isFree_of_within hfree (Site.within_of_mem_directTokens ht)

theorem adds_replaceName (hP : ∀ t, nameToken? site old = some t → P ⟨t.span, new⟩) :
    d.Adds P (replaceName site old new d) := by
  rw [replaceName]
  split
  · next t h => exact .replace (hP t h) (isFree_token hfree (mem_directTokens_of_nameToken? h))
  · exact .refl d

theorem adds_renameField (field : Field) :
    d.Adds (cx.Writes site (.field field)) (cx.renameField site field d) := by
  rw [renameField]
  split
  · exact .refl d
  · next new hnew =>
    split
    · exact .refl d
    · have hname : d.Adds (cx.Writes site (.field field)) (replaceName site field.name new d) :=
        adds_replaceName hfree fun _ ht => .field hnew ht
      -- the problem that may be reported adds no replacement
      split
      · exact hname
      · exact hname

theorem adds_renameQualified (qualified lookup : String) :
    d.Adds (fun e => ∃ c, cx.renames.find? lookup = some c ∧
      WritesQualified site qualified c.newQualified e)
      (cx.renameQualified site qualified lookup d) := by
  rw [renameQualified]
  split
  · exact .refl d
  · next c hc =>
    dsimp only
    split
    · next htext => exact .replace ⟨c, hc, .whole htext⟩ hfree
    · split
      · next p hp =>
        obtain ⟨hparent, hp⟩ := Option.filter_eq_some_iff.1 hp
        simp only [Bool.and_eq_true, Bool.or_eq_true, beq_iff_eq] at hp
        split
        · next hspan => exact .replace ⟨c, hc, .around hparent hp.1 hp.2⟩ hspan
        · exact .refl d
      · exact adds_replaceName hfree fun _ ht => ⟨c, hc, .simple ht⟩

theorem adds_renameMethod (m : Method) :
    d.Adds (WritesMethod cx site m) (cx.renameMethod site m d) := by
  rw [renameMethod]
  split
  · next hconstructor =>
    split
    · exact (adds_renameQualified hfree _ _).mono fun e ⟨c, hc, he⟩ => .owner hconstructor hc he
    · exact .refl d
  · split
    · exact .refl d
    · next new hnew =>
      have hname : d.Adds (WritesMethod cx site m) (replaceName site m.name new d) :=
        adds_replaceName hfree fun _ ht => .name hnew ht
      split
      · exact .refl d
      · split
        · exact hname
        · split
          · next h =>
            obtain ⟨hproperty, p, hparent, hkind, rfl, hspan⟩ := getterCall?_eq_some h
            exact .replace (.call hnew hproperty hparent hkind) hspan
          · exact hname

theorem adds_renameProperty (getter : Method) :
    d.Adds (cx.Writes site (.property getter)) (cx.renameProperty site getter d) := by
  rw [renameProperty]
  split
  · exact .refl d
  · next new hnew =>
    split
    · exact .refl d
    · split
      · exact .refl d
      · next t ht =>
        exact .replace (.property hnew ht) (isFree_token hfree
          (Site.mem_directTokens_of_mem_idents (List.mem_of_getLast? ht)))

end

mutual

/-- **Renaming a free node queues at most one replacement**, which its symbol writes. -/
theorem adds_rename (hwide : ∀ s, site.Nearby s → s.start < s.stop) :
    (symbol : Symbol) → (d : Draft) → d.isFree site.span = true →
      d.Adds (cx.Writes site symbol) (cx.rename site symbol d)
  | .field f, d, hfree => by simpa only [rename] using adds_renameField hfree f
  | .method m, d, hfree => by
    simpa only [rename] using (adds_renameMethod hfree m).mono fun _ h => Writes.method h
  | .function m, d, hfree => by
    simpa only [rename] using (adds_renameMethod hfree m).mono fun _ h => Writes.function h
  | .classType name, d, hfree => by
    simpa only [rename, renameClass] using (adds_renameQualified hfree name.qualified name.binary).mono
      fun _ ⟨_, hc, h⟩ => Writes.classType hc h
  | .package name, d, hfree => by
    simpa only [rename] using (adds_renameQualified hfree name name).mono
      fun _ ⟨_, hc, h⟩ => Writes.package hc h
  | .property getter, d, hfree => by simpa only [rename] using adds_renameProperty hfree getter
  | .compiled overridden, d, hfree => by
    simpa only [rename] using (adds_renameFirst hwide overridden d hfree).mono
      fun _ ⟨_, hmem, h⟩ => Writes.compiled hmem h

theorem adds_renameFirst (hwide : ∀ s, site.Nearby s → s.start < s.stop) :
    (symbols : List Symbol) → (d : Draft) → d.isFree site.span = true →
      d.Adds (fun e => ∃ symbol ∈ symbols, cx.Writes site symbol e)
        (cx.renameFirst site symbols d)
  | [], d, _ => by
    rw [renameFirst]
    exact .refl d
  | symbol :: symbols, d, hfree => by
    rw [renameFirst]
    rcases adds_rename hwide symbol d hfree with hsame | ⟨e, he, hspan, hedits⟩
    · -- nothing is queued for the first symbol, so the others find the same replacements
      have hrest := adds_renameFirst hwide symbols (cx.rename site symbol d)
        (by rwa [Draft.isFree, hsame])
      rw [if_pos (congrArg Edits.size hsame)]
      exact (hrest.of_edits_eq hsame).mono fun _ ⟨s, hs, he⟩ => ⟨s, List.mem_cons_of_mem _ hs, he⟩
    · -- a free span that is not empty is not listed, so the first symbol is the last one
      have hnew := Edits.hasSpan_eq_false hspan (hwide e.span he.nearby)
      have hsize : (cx.rename site symbol d).edits.size ≠ d.edits.size := by
        rw [hedits, Edits.size_queue_of_not_hasSpan hnew]
        omega
      rw [if_neg hsize]
      exact .inr ⟨e, ⟨symbol, List.mem_cons_self, he⟩, hspan, hedits⟩

end

end Context

end SourceRename
