/-
  FluidClamp.Utility.Table
  ────────────────────────
  **ALL UTILITIES, IN THE ORDER OF THEIR RULES IN A STYLE SHEET.**

  Names contain dashes and are each other's beginnings (`border`, `border-x`,
  `border-spacing-x`), so a class belongs to the longest name that fits.  No two
  utilities have the same name.
-/
import FluidClamp.Utility

namespace FluidClamp.Utility

/-! ## §1. Texts that several utilities share. -/

/-- How the two border spacings are put together. -/
def borderSpacing : String :=
  "var(--tw-border-spacing-x) var(--tw-border-spacing-y)"

/-- How the parts of a transformation are put together. -/
def transform : String :=
  "translate(var(--tw-translate-x), var(--tw-translate-y)) " ++
  "rotate(var(--tw-rotate)) skewX(var(--tw-skew-x)) " ++
  "skewY(var(--tw-skew-y)) scaleX(var(--tw-scale-x)) " ++
  "scaleY(var(--tw-scale-y))"

/-- How the parts of a filter are put together. -/
def filter : String :=
  "var(--tw-blur) var(--tw-brightness) var(--tw-contrast) " ++
  "var(--tw-grayscale) var(--tw-hue-rotate) var(--tw-invert) " ++
  "var(--tw-saturate) var(--tw-sepia) var(--tw-drop-shadow)"

/-- How the parts of a backdrop filter are put together. -/
def backdropFilter : String :=
  "var(--tw-backdrop-blur) var(--tw-backdrop-brightness) " ++
  "var(--tw-backdrop-contrast) var(--tw-backdrop-grayscale) " ++
  "var(--tw-backdrop-hue-rotate) var(--tw-backdrop-invert) " ++
  "var(--tw-backdrop-opacity) var(--tw-backdrop-saturate) " ++
  "var(--tw-backdrop-sepia)"

/-! ## §2. The table. -/

/-- A utility that gives the value to properties. -/
def sizes (name themeKey : String) (properties : List String) : Utility :=
  ⟨name, some themeKey, .properties properties⟩

/-- **All utilities.** -/
def table : List Utility := [
  sizes "inset" "inset" ["inset"],
  sizes "inset-x" "inset" ["left", "right"],
  sizes "inset-y" "inset" ["top", "bottom"],
  sizes "start" "inset" ["inset-inline-start"],
  sizes "end" "inset" ["inset-inline-end"],
  sizes "top" "inset" ["top"],
  sizes "right" "inset" ["right"],
  sizes "bottom" "inset" ["bottom"],
  sizes "left" "inset" ["left"],
  sizes "m" "margin" ["margin"],
  sizes "mx" "margin" ["margin-left", "margin-right"],
  sizes "my" "margin" ["margin-top", "margin-bottom"],
  sizes "ms" "margin" ["margin-inline-start"],
  sizes "me" "margin" ["margin-inline-end"],
  sizes "mt" "margin" ["margin-top"],
  sizes "mr" "margin" ["margin-right"],
  sizes "mb" "margin" ["margin-bottom"],
  sizes "ml" "margin" ["margin-left"],
  sizes "size" "size" ["width", "height"],
  sizes "h" "height" ["height"],
  sizes "max-h" "maxHeight" ["max-height"],
  sizes "min-h" "minHeight" ["min-height"],
  sizes "w" "width" ["width"],
  sizes "min-w" "minWidth" ["min-width"],
  sizes "max-w" "maxWidth" ["max-width"],
  sizes "basis" "flexBasis" ["flex-basis"],
  ⟨"border-spacing", some "borderSpacing", .element [
    .value "--tw-border-spacing-x",
    .value "--tw-border-spacing-y",
    .fixed "border-spacing" borderSpacing]⟩,
  ⟨"border-spacing-x", some "borderSpacing", .element [
    .value "--tw-border-spacing-x",
    .fixed "border-spacing" borderSpacing]⟩,
  ⟨"border-spacing-y", some "borderSpacing", .element [
    .value "--tw-border-spacing-y",
    .fixed "border-spacing" borderSpacing]⟩,
  ⟨"translate-x", some "translate", .element [
    .value "--tw-translate-x",
    .fixed "transform" transform]⟩,
  ⟨"translate-y", some "translate", .element [
    .value "--tw-translate-y",
    .fixed "transform" transform]⟩,
  sizes "scroll-m" "scrollMargin" ["scroll-margin"],
  sizes "scroll-mx" "scrollMargin" ["scroll-margin-left", "scroll-margin-right"],
  sizes "scroll-my" "scrollMargin" ["scroll-margin-top", "scroll-margin-bottom"],
  sizes "scroll-ms" "scrollMargin" ["scroll-margin-inline-start"],
  sizes "scroll-me" "scrollMargin" ["scroll-margin-inline-end"],
  sizes "scroll-mt" "scrollMargin" ["scroll-margin-top"],
  sizes "scroll-mr" "scrollMargin" ["scroll-margin-right"],
  sizes "scroll-mb" "scrollMargin" ["scroll-margin-bottom"],
  sizes "scroll-ml" "scrollMargin" ["scroll-margin-left"],
  sizes "scroll-p" "scrollPadding" ["scroll-padding"],
  sizes "scroll-px" "scrollPadding" ["scroll-padding-left", "scroll-padding-right"],
  sizes "scroll-py" "scrollPadding" ["scroll-padding-top", "scroll-padding-bottom"],
  sizes "scroll-ps" "scrollPadding" ["scroll-padding-inline-start"],
  sizes "scroll-pe" "scrollPadding" ["scroll-padding-inline-end"],
  sizes "scroll-pt" "scrollPadding" ["scroll-padding-top"],
  sizes "scroll-pr" "scrollPadding" ["scroll-padding-right"],
  sizes "scroll-pb" "scrollPadding" ["scroll-padding-bottom"],
  sizes "scroll-pl" "scrollPadding" ["scroll-padding-left"],
  sizes "columns" "columns" ["columns"],
  sizes "gap" "gap" ["gap"],
  sizes "gap-x" "gap" ["column-gap"],
  sizes "gap-y" "gap" ["row-gap"],
  ⟨"space-x", some "space", .siblings [
    .fixed "--tw-space-x-reverse" "0",
    .wrapped "margin-right" "calc(" " * var(--tw-space-x-reverse))",
    .wrapped "margin-left" "calc(" " * calc(1 - var(--tw-space-x-reverse)))"]⟩,
  ⟨"space-y", some "space", .siblings [
    .fixed "--tw-space-y-reverse" "0",
    .wrapped "margin-top" "calc(" " * calc(1 - var(--tw-space-y-reverse)))",
    .wrapped "margin-bottom" "calc(" " * var(--tw-space-y-reverse))"]⟩,
  ⟨"divide-x", some "divideWidth", .siblings [
    .fixed "--tw-divide-x-reverse" "0",
    .wrapped "border-right-width" "calc(" " * var(--tw-divide-x-reverse))",
    .wrapped "border-left-width" "calc(" " * calc(1 - var(--tw-divide-x-reverse)))"]⟩,
  ⟨"divide-y", some "divideWidth", .siblings [
    .fixed "--tw-divide-y-reverse" "0",
    .wrapped "border-top-width" "calc(" " * calc(1 - var(--tw-divide-y-reverse)))",
    .wrapped "border-bottom-width" "calc(" " * var(--tw-divide-y-reverse))"]⟩,
  sizes "rounded" "borderRadius" ["border-radius"],
  sizes "rounded-s" "borderRadius" ["border-start-start-radius", "border-end-start-radius"],
  sizes "rounded-e" "borderRadius" ["border-start-end-radius", "border-end-end-radius"],
  sizes "rounded-t" "borderRadius" ["border-top-left-radius", "border-top-right-radius"],
  sizes "rounded-r" "borderRadius" ["border-top-right-radius", "border-bottom-right-radius"],
  sizes "rounded-b" "borderRadius" ["border-bottom-right-radius", "border-bottom-left-radius"],
  sizes "rounded-l" "borderRadius" ["border-top-left-radius", "border-bottom-left-radius"],
  sizes "rounded-ss" "borderRadius" ["border-start-start-radius"],
  sizes "rounded-se" "borderRadius" ["border-start-end-radius"],
  sizes "rounded-ee" "borderRadius" ["border-end-end-radius"],
  sizes "rounded-es" "borderRadius" ["border-end-start-radius"],
  sizes "rounded-tl" "borderRadius" ["border-top-left-radius"],
  sizes "rounded-tr" "borderRadius" ["border-top-right-radius"],
  sizes "rounded-br" "borderRadius" ["border-bottom-right-radius"],
  sizes "rounded-bl" "borderRadius" ["border-bottom-left-radius"],
  sizes "border" "borderWidth" ["border-width"],
  sizes "border-x" "borderWidth" ["border-left-width", "border-right-width"],
  sizes "border-y" "borderWidth" ["border-top-width", "border-bottom-width"],
  sizes "border-s" "borderWidth" ["border-inline-start-width"],
  sizes "border-e" "borderWidth" ["border-inline-end-width"],
  sizes "border-t" "borderWidth" ["border-top-width"],
  sizes "border-r" "borderWidth" ["border-right-width"],
  sizes "border-b" "borderWidth" ["border-bottom-width"],
  sizes "border-l" "borderWidth" ["border-left-width"],
  sizes "p" "padding" ["padding"],
  sizes "px" "padding" ["padding-left", "padding-right"],
  sizes "py" "padding" ["padding-top", "padding-bottom"],
  sizes "ps" "padding" ["padding-inline-start"],
  sizes "pe" "padding" ["padding-inline-end"],
  sizes "pt" "padding" ["padding-top"],
  sizes "pr" "padding" ["padding-right"],
  sizes "pb" "padding" ["padding-bottom"],
  sizes "pl" "padding" ["padding-left"],
  sizes "indent" "textIndent" ["text-indent"],
  ⟨"align", none, .properties ["vertical-align"]⟩,
  sizes "text" "fontSize" ["font-size"],
  sizes "leading" "lineHeight" ["line-height"],
  sizes "tracking" "letterSpacing" ["letter-spacing"],
  sizes "decoration" "textDecorationThickness" ["text-decoration-thickness"],
  sizes "underline-offset" "textUnderlineOffset" ["text-underline-offset"],
  sizes "outline" "outlineWidth" ["outline-width"],
  sizes "outline-offset" "outlineOffset" ["outline-offset"],
  ⟨"ring", some "ringWidth", .element [
    .fixed "--tw-ring-offset-shadow" "var(--tw-ring-inset) 0 0 0 var(--tw-ring-offset-width) var(--tw-ring-offset-color)",
    .wrapped "--tw-ring-shadow" "var(--tw-ring-inset) 0 0 0 calc(" " + var(--tw-ring-offset-width)) var(--tw-ring-color)",
    .fixed "box-shadow" "var(--tw-ring-offset-shadow), var(--tw-ring-shadow), var(--tw-shadow, 0 0 #0000)"]⟩,
  sizes "ring-offset" "ringOffsetWidth" ["--tw-ring-offset-width"],
  ⟨"blur", some "blur", .element [
    .wrapped "--tw-blur" "blur(" ")",
    .fixed "filter" filter]⟩,
  ⟨"backdrop-blur", some "backdropBlur", .element [
    .wrapped "--tw-backdrop-blur" "blur(" ")",
    .fixed "backdrop-filter" backdropFilter]⟩]

/-! ## §3. Looking up. -/

/-- The utility of a name. -/
def find? (name : String) : Option Utility :=
  table.find? fun utility => utility.name = name

/-- The place of a name in the table. -/
def place? (name : String) : Option Nat :=
  table.findIdx? fun utility => utility.name = name

/-- No two utilities have the same name. -/
theorem nodup_names : (table.map name).Nodup := by decide +kernel

end FluidClamp.Utility
