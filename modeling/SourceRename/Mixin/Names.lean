/-!
# Names of mixin annotations

A mixin is a class whose members are merged into another class, its target.  Annotations name the
target, mark members that stand in for members of the target, and say where code is injected.
-/

namespace SourceRename.Mixin

/-- Marks a mixin class and names its target. -/
def mixin : String := "org.spongepowered.asm.mixin.Mixin"

/-- Marks a member that stands in for one of the target. -/
def shadow : String := "org.spongepowered.asm.mixin.Shadow"

/-- Marks a method that replaces one of the target. -/
def overwrite : String := "org.spongepowered.asm.mixin.Overwrite"

def override : String := "java.lang.Override"

def accessor : String := "org.spongepowered.asm.mixin.gen.Accessor"

def invoker : String := "org.spongepowered.asm.mixin.gen.Invoker"

/-- Names a place inside a method. -/
def injectionPoint : String := "org.spongepowered.asm.mixin.injection.At"

/-- Annotations whose attribute `method` names methods of the target. -/
def injectors : List String := [
  "org.spongepowered.asm.mixin.injection.Inject",
  "org.spongepowered.asm.mixin.injection.ModifyArg",
  "org.spongepowered.asm.mixin.injection.ModifyArgs",
  "org.spongepowered.asm.mixin.injection.ModifyConstant",
  "org.spongepowered.asm.mixin.injection.ModifyVariable",
  "org.spongepowered.asm.mixin.injection.Redirect"]

/-- Annotations that make a method of a mixin stand in for one of the target. -/
def standIns : List String := [shadow, overwrite, override]

end SourceRename.Mixin
