import CompositorConf.Catalog.Basic

namespace CompositorConf.Catalog.Standard

def generalSnap : SectionDefinition where
  path := ["general", "snap"]
  declarations := [
    { name := "enabled"
      description := "enable snapping for floating windows"
      typeName := "bool"
      defaultText := none },
    { name := "window_gap"
      description := "minimum gap in pixels between windows before snapping"
      typeName := "int"
      defaultText := none },
    { name := "monitor_gap"
      description := "minimum gap in pixels between window and monitor edges before " ++
        "snapping"
      typeName := "int"
      defaultText := none },
    { name := "border_overlap"
      description := "if true, windows snap such that only one border's worth of space " ++
        "is between them"
      typeName := "bool"
      defaultText := none }]

def general : SectionDefinition where
  path := ["general"]
  declarations := [
    { name := "border_size"
      description := "size of the border around windows"
      typeName := "int"
      defaultText := some "1" },
    { name := "no_border_on_floating"
      description := "disable borders for floating windows"
      typeName := "bool"
      defaultText := none },
    { name := "gaps_in"
      description := "gaps between windows, also supports css style gaps (top, right, " ++
        "bottom, left -> 5,10,15,20)"
      typeName := "int"
      defaultText := some "5" },
    { name := "gaps_out"
      description := "gaps between windows and monitor edges, also supports css style " ++
        "gaps (top, right, bottom, left -> 5,10,15,20)"
      typeName := "int"
      defaultText := some "20" },
    { name := "gaps_workspaces"
      description := "gaps between workspaces. Stacks with gaps_out."
      typeName := "int"
      defaultText := none },
    { name := "col.inactive_border"
      description := "border color for inactive windows"
      typeName := "gradient"
      defaultText := some "0xff444444" },
    { name := "col.active_border"
      description := "border color for the active window"
      typeName := "gradient"
      defaultText := some "0xffffffff" },
    { name := "col.nogroup_border"
      description := "inactive border color for window that cannot be added to a group " ++
        "(see denywindowfromgroup dispatcher)"
      typeName := "gradient"
      defaultText := none },
    { name := "col.nogroup_border_active"
      description := "active border color for window that cannot be added to a group"
      typeName := "gradient"
      defaultText := none },
    { name := "layout"
      description := "which layout to use. [dwindle/master]"
      typeName := "str"
      defaultText := some "dwindle" },
    { name := "no_focus_fallback"
      description := "if true, will not fall back to the next available window when " ++
        "moving focus in a direction where no window was found"
      typeName := "bool"
      defaultText := none },
    { name := "resize_on_border"
      description := "enables resizing windows by clicking and dragging on borders and " ++
        "gaps"
      typeName := "bool"
      defaultText := some "false" },
    { name := "extend_border_grab_area"
      description := "extends the area around the border where you can click and drag " ++
        "on, only used when general:resize_on_border is on."
      typeName := "int"
      defaultText := none },
    { name := "hover_icon_on_border"
      description := "show a cursor icon when hovering over borders, only used when " ++
        "general:resize_on_border is on."
      typeName := "bool"
      defaultText := none },
    { name := "allow_tearing"
      description := "master switch for allowing tearing to occur. See the Tearing page."
      typeName := "bool"
      defaultText := none },
    { name := "resize_corner"
      description := "force floating windows to use a specific corner when being resized " ++
        "(1-4 going clockwise from top left, 0 to disable)"
      typeName := "int"
      defaultText := none },
    { name := "autogenerated"
      description := "Whether this configuration was autogenerated"
      typeName := "bool"
      defaultText := none }]
  subsections := [generalSnap]

def decorationBlur : SectionDefinition where
  path := ["decoration", "blur"]
  declarations := [
    { name := "enabled"
      description := "enable kawase window background blur"
      typeName := "bool"
      defaultText := some "true" },
    { name := "size"
      description := "blur size (distance)"
      typeName := "int"
      defaultText := some "8" },
    { name := "passes"
      description := "the amount of passes to perform"
      typeName := "int"
      defaultText := some "1" },
    { name := "ignore_opacity"
      description := "make the blur layer ignore the opacity of the window"
      typeName := "bool"
      defaultText := none },
    { name := "new_optimizations"
      description := "whether to enable further optimizations to the blur. Recommended " ++
        "to leave on, as it will massively improve performance."
      typeName := "bool"
      defaultText := none },
    { name := "xray"
      description := "if enabled, floating windows will ignore tiled windows in their " ++
        "blur. Only available if new_optimizations is true. Will reduce overhead on " ++
        "floating blur significantly."
      typeName := "bool"
      defaultText := none },
    { name := "noise"
      description := "how much noise to apply. [0.0 - 1.0]"
      typeName := "float"
      defaultText := none },
    { name := "contrast"
      description := "contrast modulation for blur. [0.0 - 2.0]"
      typeName := "float"
      defaultText := none },
    { name := "brightness"
      description := "brightness modulation for blur. [0.0 - 2.0]"
      typeName := "float"
      defaultText := none },
    { name := "vibrancy"
      description := "Increase saturation of blurred colors. [0.0 - 1.0]"
      typeName := "float"
      defaultText := none },
    { name := "vibrancy_darkness"
      description := "How strong the effect of vibrancy is on dark areas . [0.0 - 1.0]"
      typeName := "float"
      defaultText := none },
    { name := "special"
      description := "whether to blur behind the special workspace (note: expensive)"
      typeName := "bool"
      defaultText := none },
    { name := "popups"
      description := "whether to blur popups (e.g. right-click menus)"
      typeName := "bool"
      defaultText := none },
    { name := "popups_ignorealpha"
      description := "works like ignorealpha in layer rules. If pixel opacity is below " ++
        "set value, will not blur. [0.0 - 1.0]"
      typeName := "float"
      defaultText := none },
    { name := "input_methods"
      description := "whether to blur input methods (e.g. fcitx5)"
      typeName := "bool"
      defaultText := none },
    { name := "input_methods_ignorealpha"
      description := "works like ignorealpha in layer rules. If pixel opacity is below " ++
        "set value, will not blur. [0.0 - 1.0]"
      typeName := "float"
      defaultText := none }]

def decorationShadow : SectionDefinition where
  path := ["decoration", "shadow"]
  declarations := [
    { name := "enabled"
      description := "enable drop shadows on windows"
      typeName := "bool"
      defaultText := none },
    { name := "range"
      description := "Shadow range (\"size\") in layout px"
      typeName := "int"
      defaultText := none },
    { name := "render_power"
      description := "in what power to render the falloff (more power, the faster the " ++
        "falloff) [1 - 4]"
      typeName := "int"
      defaultText := none },
    { name := "sharp"
      description := "if enabled, will make the shadows sharp, akin to an infinite " ++
        "render power"
      typeName := "bool"
      defaultText := none },
    { name := "ignore_window"
      description := "if true, the shadow will not be rendered behind the window itself, " ++
        "only around it."
      typeName := "bool"
      defaultText := none },
    { name := "color"
      description := "shadow's color. Alpha dictates shadow's opacity."
      typeName := "color"
      defaultText := none },
    { name := "color_inactive"
      description := "inactive shadow color. (if not set, will fall back to color)"
      typeName := "color"
      defaultText := none },
    { name := "offset"
      description := "shadow's rendering offset."
      typeName := "vec2"
      defaultText := none },
    { name := "scale"
      description := "shadow's scale. [0.0 - 1.0]"
      typeName := "float"
      defaultText := none }]

def decoration : SectionDefinition where
  path := ["decoration"]
  declarations := [
    { name := "rounding"
      description := "rounded corners' radius (in layout px)"
      typeName := "int"
      defaultText := some "0" },
    { name := "rounding_power"
      description := "adjusts the curve used for rounding corners, larger is smoother, " ++
        "2.0 is a circle, 4.0 is a squircle. [2.0 - 10.0]"
      typeName := "float"
      defaultText := none },
    { name := "active_opacity"
      description := "opacity of active windows. [0.0 - 1.0]"
      typeName := "float"
      defaultText := some "1.0" },
    { name := "inactive_opacity"
      description := "opacity of inactive windows. [0.0 - 1.0]"
      typeName := "float"
      defaultText := some "1.0" },
    { name := "fullscreen_opacity"
      description := "opacity of fullscreen windows. [0.0 - 1.0]"
      typeName := "float"
      defaultText := none },
    { name := "dim_inactive"
      description := "enables dimming of inactive windows"
      typeName := "bool"
      defaultText := none },
    { name := "dim_strength"
      description := "how much inactive windows should be dimmed [0.0 - 1.0]"
      typeName := "float"
      defaultText := none },
    { name := "dim_special"
      description := "how much to dim the rest of the screen by when a special workspace " ++
        "is open. [0.0 - 1.0]"
      typeName := "float"
      defaultText := none },
    { name := "dim_around"
      description := "how much the dimaround window rule should dim by. [0.0 - 1.0]"
      typeName := "float"
      defaultText := none },
    { name := "screen_shader"
      description := "a path to a custom shader to be applied at the end of rendering. " ++
        "See examples/screenShader.frag for an example."
      typeName := "str"
      defaultText := some "[[Empty]]" }]
  subsections := [decorationBlur, decorationShadow]

def animations : SectionDefinition where
  path := ["animations"]
  declarations := [
    { name := "enabled"
      description := "enable animations"
      typeName := "bool"
      defaultText := none },
    { name := "first_launch_animation"
      description := "enable first launch animation"
      typeName := "bool"
      defaultText := none }]

def groupGroupbar : SectionDefinition where
  path := ["group", "groupbar"]
  declarations := [
    { name := "enabled"
      description := "enables groupbars"
      typeName := "bool"
      defaultText := none },
    { name := "font_family"
      description := "font used to display groupbar titles, use misc:font_family if not " ++
        "specified"
      typeName := "str"
      defaultText := none },
    { name := "font_size"
      description := "font size of groupbar title"
      typeName := "int"
      defaultText := none },
    { name := "gradients"
      description := "enables gradients"
      typeName := "bool"
      defaultText := none },
    { name := "height"
      description := "height of the groupbar"
      typeName := "int"
      defaultText := none },
    { name := "stacked"
      description := "render the groupbar as a vertical stack"
      typeName := "bool"
      defaultText := none },
    { name := "priority"
      description := "sets the decoration priority for groupbars"
      typeName := "int"
      defaultText := none },
    { name := "render_titles"
      description := "whether to render titles in the group bar decoration"
      typeName := "bool"
      defaultText := none },
    { name := "scrolling"
      description := "whether scrolling in the groupbar changes group active window"
      typeName := "bool"
      defaultText := none },
    { name := "text_color"
      description := "controls the group bar text color"
      typeName := "color"
      defaultText := none },
    { name := "col.active"
      description := "active group bar background color"
      typeName := "gradient"
      defaultText := none },
    { name := "col.inactive"
      description := "inactive (out of focus) group bar background color"
      typeName := "gradient"
      defaultText := none },
    { name := "col.locked_active"
      description := "active locked group bar background color"
      typeName := "gradient"
      defaultText := none },
    { name := "col.locked_inactive"
      description := "inactive locked group bar background color"
      typeName := "gradient"
      defaultText := none }]

def group : SectionDefinition where
  path := ["group"]
  declarations := [
    { name := "auto_group"
      description := "whether new windows will be automatically grouped into the focused " ++
        "unlocked group. Note: if you want to disable auto_group only for specific " ++
        "windows, use the \"group barred\" window rule instead."
      typeName := "bool"
      defaultText := none },
    { name := "insert_after_current"
      description := "whether new windows in a group spawn after current or at group " ++
        "tail"
      typeName := "bool"
      defaultText := none },
    { name := "focus_removed_window"
      description := "whether Hyprland should focus on the window that has just been " ++
        "moved out of the group"
      typeName := "bool"
      defaultText := none },
    { name := "drag_into_group"
      description := "whether dragging a window into a unlocked group will merge them. " ++
        "Options: 0 (disabled), 1 (enabled), 2 (only when dragging into the groupbar)"
      typeName := "int"
      defaultText := none },
    { name := "merge_groups_on_drag"
      description := "whether window groups can be dragged into other groups"
      typeName := "bool"
      defaultText := none },
    { name := "merge_groups_on_groupbar"
      description := "whether one group will be merged with another when dragged into " ++
        "its groupbar"
      typeName := "bool"
      defaultText := none },
    { name := "merge_floated_into_tiled_on_groupbar"
      description := "whether dragging a floating window into a tiled window groupbar " ++
        "will merge them"
      typeName := "bool"
      defaultText := none },
    { name := "group_on_movetoworkspace"
      description := "whether using movetoworkspace[silent] will merge the window into " ++
        "the workspace's solitary unlocked group"
      typeName := "bool"
      defaultText := none },
    { name := "col.border_active"
      description := "active group border color"
      typeName := "gradient"
      defaultText := none },
    { name := "col.border_inactive"
      description := "inactive (out of focus) group border color"
      typeName := "gradient"
      defaultText := none },
    { name := "col.border_locked_active"
      description := "active locked group border color"
      typeName := "gradient"
      defaultText := none },
    { name := "col.border_locked_inactive"
      description := "inactive locked group border color"
      typeName := "gradient"
      defaultText := none }]
  subsections := [groupGroupbar]

def master : SectionDefinition where
  path := ["master"]
  declarations := [
    { name := "allow_small_split"
      description := "enable adding additional master windows in a horizontal split " ++
        "style"
      typeName := "bool"
      defaultText := none },
    { name := "special_scale_factor"
      description := "the scale of the special workspace windows. [0.0 - 1.0]"
      typeName := "float"
      defaultText := none },
    { name := "mfact"
      description := "the size as a percentage of the master window, for example mfact = " ++
        "0.70 would mean 70% of the screen will be the master window, and 30% the slave " ++
        "[0.0 - 1.0]"
      typeName := "float"
      defaultText := none },
    { name := "new_status"
      description := "master: new window becomes master; slave: new windows are added to " ++
        "slave stack; inherit: inherit from focused window"
      typeName := "str"
      defaultText := none },
    { name := "new_on_top"
      description := "whether a newly open window should be on the top of the stack"
      typeName := "bool"
      defaultText := none },
    { name := "new_on_active"
      description := "before, after: place new window relative to the focused window; " ++
        "none: place new window according to the value of new_on_top."
      typeName := "str"
      defaultText := none },
    { name := "orientation"
      description := "default placement of the master area, can be left, right, top, " ++
        "bottom or center"
      typeName := "str"
      defaultText := none },
    { name := "inherit_fullscreen"
      description := "inherit fullscreen status when cycling/swapping to another window " ++
        "(e.g. monocle layout)"
      typeName := "bool"
      defaultText := none },
    { name := "slave_count_for_center_master"
      description := "when using orientation=center, make the master window centered " ++
        "only when at least this many slave windows are open. (Set 0 to " ++
        "always_center_master)"
      typeName := "int"
      defaultText := none },
    { name := "center_master_slaves_on_right"
      description := "set if the slaves should appear on right of master when " ++
        "slave_count_for_center_master > 2"
      typeName := "bool"
      defaultText := none },
    { name := "smart_resizing"
      description := "if enabled, resizing direction will be determined by the mouse's " ++
        "position on the window (nearest to which corner). Else, it is based on the " ++
        "window's tiling position."
      typeName := "bool"
      defaultText := none },
    { name := "drop_at_cursor"
      description := "when enabled, dragging and dropping windows will put them at the " ++
        "cursor position. Otherwise, when dropped at the stack side, they will go to the " ++
        "top/bottom of the stack depending on new_on_top."
      typeName := "bool"
      defaultText := none }]

def dwindle : SectionDefinition where
  path := ["dwindle"]
  declarations := [
    { name := "pseudotile"
      description := "enable pseudotiling. Pseudotiled windows retain their floating " ++
        "size when tiled."
      typeName := "bool"
      defaultText := none },
    { name := "force_split"
      description := "0 -> split follows mouse, 1 -> always split to the left (new = " ++
        "left or top) 2 -> always split to the right (new = right or bottom)"
      typeName := "int"
      defaultText := none },
    { name := "preserve_split"
      description := "if enabled, the split (side/top) will not change regardless of " ++
        "what happens to the container."
      typeName := "bool"
      defaultText := none },
    { name := "smart_split"
      description := "if enabled, allows a more precise control over the window split " ++
        "direction based on the cursor's position. The window is conceptually divided " ++
        "into four triangles, and cursor's triangle determines the split direction. This " ++
        "feature also turns on preserve_split."
      typeName := "bool"
      defaultText := none },
    { name := "smart_resizing"
      description := "if enabled, resizing direction will be determined by the mouse's " ++
        "position on the window (nearest to which corner). Else, it is based on the " ++
        "window's tiling position."
      typeName := "bool"
      defaultText := none },
    { name := "permanent_direction_override"
      description := "if enabled, makes the preselect direction persist until either " ++
        "this mode is turned off, another direction is specified, or a non-direction is " ++
        "specified (anything other than l,r,u/t,d/b)"
      typeName := "bool"
      defaultText := none },
    { name := "special_scale_factor"
      description := "specifies the scale factor of windows on the special workspace [0 " ++
        "- 1]"
      typeName := "float"
      defaultText := none },
    { name := "split_width_multiplier"
      description := "specifies the auto-split width multiplier"
      typeName := "float"
      defaultText := none },
    { name := "use_active_for_splits"
      description := "whether to prefer the active window or the mouse position for " ++
        "splits"
      typeName := "bool"
      defaultText := none },
    { name := "default_split_ratio"
      description := "the default split ratio on window open. 1 means even 50/50 split. " ++
        "[0.1 - 1.9]"
      typeName := "float"
      defaultText := none },
    { name := "split_bias"
      description := "specifies which window will receive the larger half of a split. " ++
        "positional - 0, current window - 1, opening window - 2 [0/1/2]"
      typeName := "int"
      defaultText := none }]

end CompositorConf.Catalog.Standard
